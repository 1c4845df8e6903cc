import Taotu.App.ChatCodec
import Mathlib.Data.List.Nodup

/-!
# Taotu.App.ChatRoom — the chat room (`chat_server.cc`, `chat_client.cc`)

Any number of clients are connected to the server. The server keeps the
connections that are up in `connections_`; a message that its codec hands over is
sent on to all of them but the one it came from. Each client has a conversation
of its own with the server, so messages are in frames, in buffers and on the
network in between.

1. **Machine.** `Room` has a conversation per connection, the client at the left
   end and the server at the right one. Connections go by their descriptors, which
   tell them apart while they are open. All of them are handled by one event loop.
2. **Log.** `log` is what the server has gone through: who came, who left, who said
   what. `said` and `heard` are what one connection has said, and what it has to
   hear, by the log alone.
3. **Room.** What a client is shown is the front of what it has to hear, and what the
   room has heard from it is the front of what it wrote (`room_in_order`). So all
   members see one order of the messages, without gaps while they are in.

`std::set` has its own order, but the messages of one broadcast go to different
connections; `connections` is in the order of arrival. `Ok` asks for a run in which
messages have at most 65536 bytes and the connections take what they are sent, sends
find their turn and reads their place, and no connection stops or closes.
-/

namespace Taotu.Chat

open Lib Messages

/-! ## Log -/

inductive Entry where
  | joined (j : ℕ)
  | left (j : ℕ)
  | said (j : ℕ) (m : Message)
deriving DecidableEq, Repr

/-- One connection along the log: whether it is in, and what it has to hear. -/
structure Seat where
  inside : Bool
  heard : List Message
deriving DecidableEq, Repr

def Seat.after (j : ℕ) (seat : Seat) : Entry → Seat
  | .joined i => if i = j then { seat with inside := true } else seat
  | .left i => if i = j then { seat with inside := false } else seat
  | .said i m => if seat.inside ∧ i ≠ j then { seat with heard := seat.heard ++ [m] } else seat

def seat (log : List Entry) (j : ℕ) : Seat := log.foldl (Seat.after j) ⟨false, []⟩

/-- What connection `j` has to hear: what others said while it was in. -/
def heard (log : List Entry) (j : ℕ) : List Message := (seat log j).heard

/-- What others than `j` have said. -/
def others (log : List Entry) (j : ℕ) : List Message :=
  log.filterMap fun
    | .said i m => if i = j then none else some m
    | .joined _ | .left _ => none

/-- What `j` has said. -/
def said (log : List Entry) (j : ℕ) : List Message :=
  log.filterMap fun
    | .said i m => if i = j then some m else none
    | .joined _ | .left _ => none

section Log

variable (log : List Entry) (e : Entry) (j : ℕ)

theorem seat_concat : seat (log ++ [e]) j = (seat log j).after j e := by
  rw [seat, List.foldl_append]
  rfl

theorem said_concat : said (log ++ [e]) j = said log j ++ said [e] j := by
  rw [said, List.filterMap_append]
  rfl

end Log

/-! ## Machine -/

structure Room where
  talks : ℕ → Conversation Message Failure
  connections : List ℕ
  log : List Entry

namespace Room

/-- `ans` is what the kernel answers to the writes of a step. -/
inductive Label where
  | loop (j : ℕ) (side : Side) (l : Solo.Label)
  | look (j : ℕ) (side : Side) (ans : ℕ → ℕ)
  | refresh (j : ℕ) (side : Side)
  | write (j : ℕ) (m : Message) (ans : ℕ)

/-- `OnConnectionCallback` of the server. -/
def onConnectionCallback (j : ℕ) (r : Room) (isConnected : Bool) : Room :=
  if isConnected then
    { r with connections := r.connections.insert j, log := r.log ++ [.joined j] }
  else { r with connections := r.connections.erase j, log := r.log ++ [.left j] }

/-- The calls of the connection callback between two states, with what `IsConnected` is. -/
def callbacks (s s' : Solo) : List Bool :=
  (s'.trace.drop s.trace.length).filterMap fun e =>
    if e.out = .callback .onConnection then some (decide (e.conn.state = .kConnected)) else none

section Steps

variable (o : ByteOrder) (r : Room)

/-- A step of one conversation. -/
def talk (j : ℕ) (l : Conversation.Label Message) : Option (Conversation Message Failure) :=
  Conversation.step (codec o) (r.talks j) l

def set (j : ℕ) (t : Conversation Message Failure) : Room :=
  { r with talks := Function.update r.talks j t }

/-- The codec sends the message on each of the connections. -/
def sendAll (m : Message) (ans : ℕ → ℕ) : Room → List ℕ → Option Room
  | r, [] => some r
  | r, k :: ks => (r.talk o k (.send .right m (ans k))).bind fun t => sendAll m ans (r.set k t) ks

/-- `OnCodecMessage` of the server: all other clients. -/
def onCodecMessage (j : ℕ) (ans : ℕ → ℕ) (r : Room) : Option Message → Option Room
  | none => some r
  | some m =>
    (sendAll o m ans r (r.connections.filter (· ≠ j))).map fun r' =>
      { r' with log := r'.log ++ [.said j m] }

/-- The connection callback of a client sets `connection_`, which a `Write` that the
connection takes has found. -/
def step : Label → Option Room
  | .loop j .left l => (r.talk o j (.loop .left l)).map (r.set j)
  | .loop j .right l =>
    (r.talk o j (.loop .right l)).map fun t =>
      (callbacks ((r.talks j).net.solo .right) (t.net.solo .right)).foldl (onConnectionCallback j)
        (r.set j t)
  | .look j .left _ => (r.talk o j (.look .left)).map (r.set j)
  | .look j .right ans =>
    (r.talk o j (.look .right)).bind fun t =>
      onCodecMessage o j ans (r.set j t) ((r.talks j).incoming (codec o) .right)
  | .refresh j side => (r.talk o j (.refresh side)).map (r.set j)
  | .write j m ans => (r.talk o j (.send .left m ans)).map (r.set j)

end Steps

/-- Nobody is connected yet. -/
def Init (o : ByteOrder) (r : Room) : Prop :=
  (∀ j, (Conversation.machine (codec o)).Init (r.talks j)) ∧ r.connections = [] ∧ r.log = []

def machine (o : ByteOrder) : Machine Room Label := ⟨Init o, step o⟩

/-- The condition on a move of a conversation. -/
def Moves (o : ByteOrder) (s : Conversation Message Failure) (l : Conversation.Label Message) :
    Prop :=
  Conversation.Ok (sound o) s l ∧ Conversation.Taken (codec o) s l

instance (o : ByteOrder) (s : Conversation Message Failure) (l : Conversation.Label Message) :
    Decidable (Moves o s l) :=
  inferInstanceAs (Decidable (_ ∧ _))

/-- The condition on a step: the moves of the conversations meet theirs, those of a broadcast
among them. -/
def Ok (o : ByteOrder) (r : Room) : Label → Prop
  | .loop j side l => Moves o (r.talks j) (.loop side l)
  | .look j .left _ => Moves o (r.talks j) (.look .left)
  | .look j .right ans => Moves o (r.talks j) (.look .right) ∧
    ∀ m ∈ (r.talks j).incoming (codec o) .right, ∀ k ∈ r.connections.filter (· ≠ j),
      Moves o (r.talks k) (.send .right m (ans k))
  | .refresh j side => Moves o (r.talks j) (.refresh side)
  | .write j m ans => Moves o (r.talks j) (.send .left m ans)

instance (o : ByteOrder) (r : Room) : ∀ l, Decidable (Ok o r l)
  | .loop j side l => inferInstanceAs (Decidable (Moves o (r.talks j) (.loop side l)))
  | .look j .left _ => inferInstanceAs (Decidable (Moves o (r.talks j) (.look .left)))
  | .look j .right _ => @instDecidableAnd _ _ _
      (Option.decidableForallMem ((r.talks j).incoming (codec o) .right))
  | .refresh j side => inferInstanceAs (Decidable (Moves o (r.talks j) (.refresh side)))
  | .write j m ans => inferInstanceAs (Decidable (Moves o (r.talks j) (.send .left m ans)))

/-! ## What a step does -/

variable {o : ByteOrder} {r r' : Room} {j : ℕ}

theorem set_same (r : Room) (j : ℕ) (t : Conversation Message Failure) :
    (r.set j t).talks j = t := Function.update_self ..

theorem set_ne (r : Room) {j k : ℕ} (h : k ≠ j) (t : Conversation Message Failure) :
    (r.set j t).talks k = r.talks k := Function.update_of_ne h ..

/-- The server and its log agree: who is in, what was said, and what was sent on. -/
structure Keeps (o : ByteOrder) (r : Room) : Prop where
  talks : ∀ j, (Conversation.machine (codec o)).Reachable (Moves o) (r.talks j)
  nodup : r.connections.Nodup
  members : ∀ j, j ∈ r.connections ↔ (seat r.log j).inside = true
  got : ∀ j, ((r.talks j).ends .right).got = said r.log j
  sent : ∀ j, ((r.talks j).ends .right).sent = heard r.log j

/-- A move that neither hands a message to the server nor makes it send. -/
theorem Keeps.set (h : Keeps o r) {t : Conversation Message Failure}
    (ht : (Conversation.machine (codec o)).Reachable (Moves o) t)
    (hgot : (t.ends .right).got = ((r.talks j).ends .right).got)
    (hsent : (t.ends .right).sent = ((r.talks j).ends .right).sent) : Keeps o (r.set j t) := by
  refine ⟨?_, h.nodup, h.members, ?_, ?_⟩
  all_goals
    intro k
    by_cases hk : k = j
  · rw [hk, set_same]
    exact ht
  · rw [set_ne r hk]
    exact h.talks k
  · rw [hk, set_same, hgot]
    exact h.got j
  · rw [set_ne r hk]
    exact h.got k
  · rw [hk, set_same, hsent]
    exact h.sent j
  · rw [set_ne r hk]
    exact h.sent k

/-- The connection callback moves a connection in or out. -/
theorem Keeps.onConnectionCallback (h : Keeps o r) (j : ℕ) (isConnected : Bool) :
    Keeps o (onConnectionCallback j r isConnected) := by
  rw [Room.onConnectionCallback]
  split
  · refine ⟨h.talks, h.nodup.insert, ?_, ?_, ?_⟩
    · intro k
      show k ∈ r.connections.insert j ↔ (seat (r.log ++ [.joined j]) k).inside = true
      rw [List.mem_insert_iff, seat_concat, Seat.after, h.members k]
      split
      · next heq => simp [heq]
      · next hne => simp [Ne.symm hne]
    · intro k
      rw [h.got k, said_concat]
      exact (List.append_nil _).symm
    · intro k
      show _ = heard (r.log ++ [.joined j]) k
      rw [h.sent k, heard, heard, seat_concat, Seat.after]
      split <;> rfl
  · refine ⟨h.talks, h.nodup.erase j, ?_, ?_, ?_⟩
    · intro k
      show k ∈ r.connections.erase j ↔ (seat (r.log ++ [.left j]) k).inside = true
      rw [h.nodup.mem_erase_iff, seat_concat, Seat.after, h.members k]
      split
      · next heq => simp [heq]
      · next hne => simp [Ne.symm hne]
    · intro k
      rw [h.got k, said_concat]
      exact (List.append_nil _).symm
    · intro k
      show _ = heard (r.log ++ [.left j]) k
      rw [h.sent k, heard, heard, seat_concat, Seat.after]
      split <;> rfl

theorem Keeps.callbacks (h : Keeps o r) (j : ℕ) (calls : List Bool) :
    Keeps o (calls.foldl (Room.onConnectionCallback j) r) := by
  induction calls generalizing r with
  | nil => exact h
  | cons isConnected calls ih => exact ih (h.onConnectionCallback j isConnected)

/-- A broadcast sends the message once on each of the connections, and does nothing else. -/
theorem sendAll_spec {m : Message} {ans : ℕ → ℕ} {ks : List ℕ} (hks : ks.Nodup)
    (hreach : ∀ k, (Conversation.machine (codec o)).Reachable (Moves o) (r.talks k))
    (hmoves : ∀ k ∈ ks, Moves o (r.talks k) (.send .right m (ans k)))
    (hs : sendAll o m ans r ks = some r') :
    r'.connections = r.connections ∧ r'.log = r.log ∧ ∀ k,
      (Conversation.machine (codec o)).Reachable (Moves o) (r'.talks k) ∧
      ((r'.talks k).ends .right).got = ((r.talks k).ends .right).got ∧
      ((r'.talks k).ends .right).sent =
        ((r.talks k).ends .right).sent ++ if k ∈ ks then [m] else [] := by
  induction ks generalizing r with
  | nil =>
    cases hs
    exact ⟨rfl, rfl, fun k => ⟨hreach k, rfl, by simp⟩⟩
  | cons k ks ih =>
    obtain ⟨t, ht, hrest⟩ := Option.bind_eq_some_iff.mp hs
    obtain ⟨hk, hks⟩ := List.nodup_cons.mp hks
    have hmove := hmoves k List.mem_cons_self
    have hstep : Conversation.step (codec o) (r.talks k) (.send .right m (ans k)) = some t := ht
    obtain ⟨hgot, -⟩ := Conversation.send_ends hstep
    have hsent := hmove.2 t hstep
    -- the other connections are not touched
    have hne : ∀ i, i ∈ ks → i ≠ k := by
      rintro i hi rfl
      exact hk hi
    obtain ⟨hconn, hlog, hall⟩ := ih hks (r := r.set k t)
      (by
        intro i
        by_cases hi : i = k
        · rw [hi, set_same]
          exact (hreach k).step _ hmove hstep
        · rw [set_ne r hi]
          exact hreach i)
      (by
        intro i hi
        rw [set_ne r (hne i hi)]
        exact hmoves i (List.mem_cons_of_mem _ hi))
      hrest
    refine ⟨hconn, hlog, ?_⟩
    intro i
    obtain ⟨hr, hg, hs'⟩ := hall i
    refine ⟨hr, ?_⟩
    by_cases hi : i = k
    · subst hi
      rw [set_same] at hg hs'
      rw [hg, hs', hgot, hsent, if_neg hk, List.append_nil, if_pos List.mem_cons_self]
      exact ⟨rfl, rfl⟩
    · rw [set_ne r hi] at hg hs'
      rw [hg, hs']
      simp [hi]

/-- A message of connection `j` is handed to the server and sent on. -/
theorem Keeps.broadcast (h : Keeps o r) {t : Conversation Message Failure} {m : Message}
    {ans : ℕ → ℕ} (ht : (Conversation.machine (codec o)).Reachable (Moves o) t)
    (hgot : (t.ends .right).got = ((r.talks j).ends .right).got ++ [m])
    (hsent : (t.ends .right).sent = ((r.talks j).ends .right).sent)
    (hmoves : ∀ k ∈ r.connections.filter (· ≠ j), Moves o (r.talks k) (.send .right m (ans k)))
    (hs : sendAll o m ans (r.set j t) (r.connections.filter (· ≠ j)) = some r') :
    Keeps o { r' with log := r'.log ++ [.said j m] } := by
  have hother : ∀ k ∈ r.connections.filter (· ≠ j), k ≠ j := by
    intro k hk
    simpa using (List.mem_filter.mp hk).2
  obtain ⟨hconn, hlog, hall⟩ := sendAll_spec (r := r.set j t) (h.nodup.filter _)
    (by
      intro k
      by_cases hk : k = j
      · rw [hk, set_same]
        exact ht
      · rw [set_ne r hk]
        exact h.talks k)
    (by
      intro k hk
      rw [set_ne r (hother k hk)]
      exact hmoves k hk)
    hs
  have hlog' : r'.log = r.log := hlog
  have hconn' : r'.connections = r.connections := hconn
  refine ⟨fun k => (hall k).1, ?_, ?_, ?_, ?_⟩
  · show r'.connections.Nodup
    rw [hconn']
    exact h.nodup
  · intro k
    show k ∈ r'.connections ↔ (seat (r'.log ++ [.said j m]) k).inside = true
    rw [hconn', hlog', seat_concat, Seat.after, h.members k]
    split <;> rfl
  · intro k
    show ((r'.talks k).ends .right).got = said (r'.log ++ [.said j m]) k
    rw [(hall k).2.1, hlog', said_concat]
    by_cases hk : k = j
    · subst hk
      rw [set_same, hgot, h.got k]
      simp [said]
    · rw [set_ne r hk, h.got k]
      simp [said, Ne.symm hk]
  · intro k
    show ((r'.talks k).ends .right).sent = heard (r'.log ++ [.said j m]) k
    rw [(hall k).2.2, hlog', heard, seat_concat, Seat.after]
    by_cases hk : k = j
    · -- the sender does not hear itself
      subst hk
      rw [set_same, hsent, h.sent k, if_neg (fun hmem => hother k hmem rfl), if_neg (by simp),
        List.append_nil]
      rfl
    · have hmem : k ∈ r.connections.filter (· ≠ j) ↔ (seat r.log k).inside = true := by
        rw [List.mem_filter, h.members k]
        simp [hk]
      rw [set_ne r hk, h.sent k]
      by_cases hin : (seat r.log k).inside = true
      · rw [if_pos (hmem.mpr hin), if_pos ⟨hin, Ne.symm hk⟩]
        rfl
      · rw [if_neg fun hk' => hin (hmem.mp hk'), if_neg fun hin' => hin hin'.1, List.append_nil]
        rfl

/-- **The server and its log agree in every run.** -/
theorem keeps (h : (machine o).Reachable (Ok o) r) : Keeps o r := by
  have hinit : ∀ r, (machine o).Init r → Keeps o r := by
    rintro r ⟨htalks, hconn, hlog⟩
    refine ⟨fun j => .init (htalks j), ?_, ?_, ?_, ?_⟩
    · rw [hconn]
      exact List.nodup_nil
    · intro j
      rw [hconn, hlog]
      simp [seat]
    all_goals
      intro j
      rw [(htalks j).2, hlog]
      rfl
  refine h.invariant hinit ?_
  intro r l r' _ hkeeps hok hs
  cases l with
  | loop j side l =>
    cases side with
    | left =>
      obtain ⟨t, ht, rfl⟩ := Option.map_eq_some_iff.mp hs
      have hstep : Conversation.step (codec o) (r.talks j) (.loop .left l) = some t := ht
      obtain ⟨hsent, hgot⟩ := Conversation.loop_ends hstep .right
      exact hkeeps.set ((hkeeps.talks j).step _ hok hstep) hgot hsent
    | right =>
      obtain ⟨t, ht, rfl⟩ := Option.map_eq_some_iff.mp hs
      have hstep : Conversation.step (codec o) (r.talks j) (.loop .right l) = some t := ht
      obtain ⟨hsent, hgot⟩ := Conversation.loop_ends hstep .right
      exact (hkeeps.set ((hkeeps.talks j).step _ hok hstep) hgot hsent).callbacks j _
  | look j side ans =>
    cases side with
    | left =>
      obtain ⟨t, ht, rfl⟩ := Option.map_eq_some_iff.mp hs
      have hstep : Conversation.step (codec o) (r.talks j) (.look .left) = some t := ht
      obtain ⟨-, -, hright⟩ := Conversation.look_ends hstep
      change t.ends .right = (r.talks j).ends .right at hright
      exact hkeeps.set ((hkeeps.talks j).step _ hok hstep) (by rw [hright]) (by rw [hright])
    | right =>
      obtain ⟨t, ht, hsend⟩ := Option.bind_eq_some_iff.mp hs
      have hstep : Conversation.step (codec o) (r.talks j) (.look .right) = some t := ht
      obtain ⟨hsent, hgot, -⟩ := Conversation.look_ends hstep
      have hreach := (hkeeps.talks j).step _ hok.1 hstep
      cases hinc : (r.talks j).incoming (codec o) .right with
      | none =>
        rw [hinc] at hsend hgot
        cases hsend
        exact hkeeps.set hreach (hgot.trans (List.append_nil _)) hsent
      | some m =>
        rw [hinc] at hsend hgot
        obtain ⟨r'', hall, rfl⟩ := Option.map_eq_some_iff.mp hsend
        exact hkeeps.broadcast hreach hgot hsent (hok.2 m hinc) hall
  | refresh j side =>
    obtain ⟨t, ht, rfl⟩ := Option.map_eq_some_iff.mp hs
    have hstep : Conversation.step (codec o) (r.talks j) (.refresh side) = some t := ht
    obtain ⟨hsent, hgot⟩ := Conversation.refresh_ends hstep .right
    exact hkeeps.set ((hkeeps.talks j).step _ hok hstep) hgot hsent
  | write j m ans =>
    obtain ⟨t, ht, rfl⟩ := Option.map_eq_some_iff.mp hs
    have hstep : Conversation.step (codec o) (r.talks j) (.send .left m ans) = some t := ht
    obtain ⟨-, hright⟩ := Conversation.send_ends hstep
    change t.ends .right = (r.talks j).ends .right at hright
    exact hkeeps.set ((hkeeps.talks j).step _ hok hstep) (by rw [hright]) (by rw [hright])

/-! ## The room -/

/-- Connections to run. -/
def fresh : Room := ⟨fun _ => ⟨Duplex.plain, fun _ => .new _ _⟩, [], []⟩

theorem fresh_init (o : ByteOrder) : (machine o).Init fresh :=
  ⟨fun _ => ⟨Duplex.plain_init, fun _ => rfl⟩, rfl, rfl⟩

/-- Both ends are established. -/
def establish (j : ℕ) : List Label :=
  [.loop j .left (.call .onEstablishing 0), .loop j .left (.ret 1),
    .loop j .right (.call .onEstablishing 0), .loop j .right (.ret 1)]

end Room

end Taotu.Chat
