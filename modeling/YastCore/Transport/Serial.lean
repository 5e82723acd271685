import Mathlib.Data.List.Infix
import Mathlib.Data.List.TakeWhile
import Mathlib.Tactic.Common
import YastCore.Value.Basic

/-!
# The handshake over a serial line

`Y2SerialComponent::initializeConnection` at both ends of a line. Each end writes spaces and reads bytes
until it has read `NUMSPACES` spaces in a row, then it writes twice as many and goes over to messages. A
byte on the line carries who has written it, so that one can say what was read where.
-/

namespace YastCore.Transport.Serial

/-- `NUMSPACES` -/
def numspaces : ℕ := 16

def space : UInt8 := 32

/-! ### The two parties -/

/-- What a byte on the line belongs to. -/
inductive Origin where
  | garbage
  | handshake
  | message
deriving DecidableEq

structure Octet where
  value : UInt8
  origin : Origin

/-- Where a party is: at the head of the loop, behind its write, behind the handshake, or gone. -/
inductive Place where
  | head
  | waiting
  | connected
  | exited
deriving DecidableEq

/-- A party, with the bytes that are on the line to it, those its handshake and its parser have read,
and the messages it has sent. -/
structure Party where
  place : Place := .head
  spaces_read : ℕ := 0
  input : List Octet
  consumed : List Octet := []
  parsed : List Octet := []
  sent : List UInt8 := []

inductive Action where
  /-- The head of the loop: a space is written, or twice `NUMSPACES` of them and the loop is left. -/
  | turn
  /-- `exit (13)`, after `timeout_seconds`. -/
  | giveUp
  /-- `await_readable` has waited in vain. -/
  | timeout
  /-- One byte is read. -/
  | read
  /-- A byte of a message is sent. -/
  | send (byte : UInt8)
  /-- The parser reads a byte. -/
  | parse

/-- `write (fd_serial, ..)` -/
def Party.receives (q : Party) (octets : List Octet) : Party := { q with input := q.input ++ octets }

/-- The count after a byte was read. -/
def count (spaces_read : ℕ) (byte : UInt8) : ℕ := if byte = space then spaces_read + 1 else 0

/-- What a party does, and what this does to the other end. -/
def act (p q : Party) : Action → Option (Party × Party)
  | .turn =>
    if p.place = .head then
      if p.spaces_read < numspaces then
        some ({ p with place := .waiting }, q.receives [⟨space, .handshake⟩])
      else
        some ({ p with place := .connected }, q.receives (List.replicate (2 * numspaces) ⟨space, .handshake⟩))
    else none
  | .giveUp =>
    if p.place = .head ∧ p.spaces_read < numspaces then some ({ p with place := .exited }, q) else none
  | .timeout => if p.place = .waiting then some ({ p with place := .head }, q) else none
  | .read =>
    match p.place, p.input with
    | .waiting, octet :: rest =>
      some ({ p with
        place := .head
        spaces_read := count p.spaces_read octet.value
        input := rest
        consumed := p.consumed ++ [octet] }, q)
    | _, _ => none
  | .send byte =>
    if p.place = .connected then
      some ({ p with sent := p.sent ++ [byte] }, q.receives [⟨byte, .message⟩])
    else none
  | .parse =>
    match p.place, p.input with
    | .connected, octet :: rest => some ({ p with input := rest, parsed := p.parsed ++ [octet] }, q)
    | _, _ => none

inductive Side where
  | left
  | right

def Side.other : Side → Side
  | left => right
  | right => left

structure System where
  left : Party
  right : Party

def System.party (s : System) : Side → Party
  | .left => s.left
  | .right => s.right

def step (s : System) (side : Side) (a : Action) : Option System :=
  match side with
  | .left => (act s.left s.right a).map fun r => ⟨r.1, r.2⟩
  | .right => (act s.right s.left a).map fun r => ⟨r.2, r.1⟩

def run : List (Side × Action) → System → Option System
  | [], s => some s
  | (side, a) :: actions, s => (step s side a).bind (run actions)

/-- Both parties are about to start; there is garbage on the lines to them. -/
def System.start (garbage : Side → List UInt8) : System where
  left := { input := (garbage .left).map (⟨·, .garbage⟩) }
  right := { input := (garbage .right).map (⟨·, .garbage⟩) }

/-! ### Runs of spaces -/

/-- The number of spaces at the end. -/
def trailing (l : List Octet) : ℕ := (l.reverse.takeWhile (·.value = space)).length

lemma trailing_concat (l : List Octet) (b : Octet) : trailing (l ++ [b]) = count (trailing l) b.value := by
  rw [trailing, List.reverse_append, List.reverse_singleton, List.singleton_append, List.takeWhile_cons]
  by_cases hb : b.value = space
  · rw [if_pos (by simpa using hb), count, if_pos hb]
    rfl
  · rw [if_neg (by simpa using hb), count, if_neg hb]
    rfl

lemma le_trailing_append_replicate (l : List Octet) (k : ℕ) :
    k ≤ trailing (l ++ List.replicate k ⟨space, .handshake⟩) := by
  induction k with
  | zero => exact Nat.zero_le _
  | succ k ih =>
    rw [List.replicate_succ', ← List.append_assoc, trailing_concat, count, if_pos rfl]
    omega

/-- Spaces at the end are a run of spaces. -/
lemma infix_of_trailing {l : List Octet} {k : ℕ} (h : k ≤ trailing l) :
    List.replicate k space <:+: l.map (·.value) := by
  have hall : (l.reverse.takeWhile (·.value = space)).map (·.value) = List.replicate (trailing l) space := by
    rw [List.eq_replicate_iff]
    refine ⟨List.length_map _, fun b hb => ?_⟩
    obtain ⟨octet, hoctet, rfl⟩ := List.mem_map.mp hb
    exact of_decide_eq_true (List.mem_takeWhile_imp (p := fun o : Octet => o.value = space) hoctet)
  have hinitial : List.replicate (trailing l) space <+: l.reverse.map (·.value) := by
    rw [← hall]
    exact (List.takeWhile_prefix _).map _
  rw [List.map_reverse, ← List.reverse_suffix, List.reverse_reverse, List.reverse_replicate] at hinitial
  refine List.IsInfix.trans ?_ hinitial.isInfix
  exact List.IsPrefix.isInfix ⟨List.replicate (trailing l - k) space, by
    rw [List.replicate_append_replicate, Nat.add_sub_cancel' h]⟩

/-! ### One line -/

/-- The bytes of the other end on the line: garbage, the spaces of its handshake, its messages. -/
def stream (garbage : List UInt8) (k : ℕ) (sent : List UInt8) : List Octet :=
  garbage.map (⟨·, .garbage⟩) ++ List.replicate k ⟨space, .handshake⟩ ++ sent.map (⟨·, .message⟩)

/-- The line to a party: what it has read and will read, and how far its handshake has come. -/
structure Line (garbage : List UInt8) (reader writer : Party) : Prop where
  whole : ∃ k, reader.consumed ++ reader.parsed ++ reader.input = stream garbage k writer.sent ∧
    (writer.place = .connected → 2 * numspaces ≤ k)
  early : writer.place ≠ .connected → writer.sent = []
  unparsed : reader.place ≠ .connected → reader.parsed = []
  counted : reader.spaces_read = trailing reader.consumed
  pending : reader.place = .waiting → reader.spaces_read < numspaces
  reached : reader.place = .connected → numspaces ≤ reader.spaces_read
  unsent : ∀ octet ∈ reader.consumed, octet.origin ≠ .message

section

variable {garbage : List UInt8} {p q p' q' reader writer : Party} {a : Action}

lemma stream_handshake (garbage : List UInt8) (k n : ℕ) :
    stream garbage k [] ++ List.replicate n ⟨space, .handshake⟩ = stream garbage (k + n) [] := by
  simp only [stream, List.map_nil, List.append_nil, List.append_assoc, List.replicate_append_replicate]

lemma stream_message (garbage : List UInt8) (k : ℕ) (sent : List UInt8) (byte : UInt8) :
    stream garbage k sent ++ [⟨byte, .message⟩] = stream garbage k (sent ++ [byte]) := by
  simp only [stream, List.map_append, List.map_cons, List.map_nil, List.append_assoc]

/-- What was read before the first message is what the other end had written by then. -/
lemma eq_of_message {k : ℕ} {sent : List UInt8} {l rest : List Octet} {octet : Octet}
    (h : l ++ octet :: rest = stream garbage k sent) (hl : ∀ b ∈ l, b.origin ≠ .message)
    (hoctet : octet.origin = .message) : l = stream garbage k [] := by
  have hstream : ∀ b ∈ stream garbage k [], b.origin ≠ .message := by
    intro b hb
    simp only [stream, List.map_nil, List.append_nil, List.mem_append, List.mem_map, List.mem_replicate] at hb
    rcases hb with ⟨_, _, rfl⟩ | ⟨_, rfl⟩ <;> exact Origin.noConfusion
  have hleft : (l ++ octet :: rest).takeWhile (·.origin ≠ .message) = l := by
    rw [List.takeWhile_append_of_pos fun b hb => decide_eq_true (hl b hb),
      List.takeWhile_cons_of_neg (by simp [hoctet]), List.append_nil]
  have hsplit : stream garbage k sent = stream garbage k [] ++ sent.map (⟨·, .message⟩) := by
    simp only [stream, List.map_nil, List.append_nil]
  have hright : (stream garbage k sent).takeWhile (·.origin ≠ .message) = stream garbage k [] := by
    rw [hsplit, List.takeWhile_append_of_pos fun b hb => decide_eq_true (hstream b hb)]
    cases sent with
    | nil => exact List.append_nil _
    | cons b sent => exact List.append_nil _
  rw [← hleft, h, hright]

/-- A byte of a message is not read as long as the handshake has not seen its spaces. -/
lemma Line.next_ne_message {octet : Octet} {rest : List Octet} (h : Line garbage reader writer)
    (hplace : reader.place = .waiting) (hinput : reader.input = octet :: rest) : octet.origin ≠ .message := by
  intro hmessage
  obtain ⟨k, hstream, hk⟩ := h.whole
  rw [h.unparsed (by rw [hplace]; exact Place.noConfusion), List.append_nil, hinput] at hstream
  have hconsumed := eq_of_message hstream h.unsent hmessage
  have hsent : writer.sent ≠ [] := by
    rintro hsent
    rw [hsent, hconsumed] at hstream
    simp at hstream
  have hconnected : writer.place = .connected := by
    by_contra hne
    exact hsent (h.early hne)
  have hlong := le_trailing_append_replicate (garbage.map (⟨·, .garbage⟩)) k
  have hshort := h.pending hplace
  rw [h.counted, hconsumed, stream, List.map_nil, List.append_nil] at hshort
  have hspaces := hk hconnected
  unfold numspaces at *
  omega

/-- Only the place of the other end and its messages matter to a line. -/
lemma Line.congr_writer (h : Line garbage reader p) (hplace : p'.place = p.place) (hsent : p'.sent = p.sent) :
    Line garbage reader p' where
  whole := by rw [hsent, hplace]; exact h.whole
  early := by rw [hsent, hplace]; exact h.early
  unparsed := h.unparsed
  counted := h.counted
  pending := h.pending
  reached := h.reached
  unsent := h.unsent

/-- What the other end does before it is connected, short of writing. -/
lemma Line.congr_early (h : Line garbage reader p) (hp : p.place ≠ .connected) (hp' : p'.place ≠ .connected)
    (hsent : p'.sent = p.sent) : Line garbage reader p' where
  whole := by
    obtain ⟨k, hstream, -⟩ := h.whole
    exact ⟨k, by rw [hsent, hstream], fun hconnected => absurd hconnected hp'⟩
  early _ := by rw [hsent, h.early hp]
  unparsed := h.unparsed
  counted := h.counted
  pending := h.pending
  reached := h.reached
  unsent := h.unsent

/-- The messages that the reader itself sends do not matter. -/
lemma Line.congr_reader (h : Line garbage p writer) (hplace : p'.place = p.place)
    (hcount : p'.spaces_read = p.spaces_read) (hinput : p'.input = p.input) (hconsumed : p'.consumed = p.consumed)
    (hparsed : p'.parsed = p.parsed) : Line garbage p' writer where
  whole := by rw [hconsumed, hparsed, hinput]; exact h.whole
  early := h.early
  unparsed := by rw [hplace, hparsed]; exact h.unparsed
  counted := by rw [hcount, hconsumed]; exact h.counted
  pending := by rw [hplace, hcount]; exact h.pending
  reached := by rw [hplace, hcount]; exact h.reached
  unsent := by rw [hconsumed]; exact h.unsent

/-- Another place of the reader. -/
lemma Line.congr_place {place : Place} (h : Line garbage reader writer)
    (hconnected : place ≠ .connected → reader.parsed = [])
    (hpending : place = .waiting → reader.spaces_read < numspaces)
    (hreached : place = .connected → numspaces ≤ reader.spaces_read) :
    Line garbage { reader with place := place } writer where
  whole := h.whole
  early := h.early
  unparsed := hconnected
  counted := h.counted
  pending := hpending
  reached := hreached
  unsent := h.unsent

lemma Line.read {octet : Octet} {rest : List Octet} (h : Line garbage reader writer)
    (hplace : reader.place = .waiting) (hinput : reader.input = octet :: rest) :
    Line garbage { reader with
      place := .head
      spaces_read := count reader.spaces_read octet.value
      input := rest
      consumed := reader.consumed ++ [octet] } writer where
  whole := by
    obtain ⟨k, hstream, hk⟩ := h.whole
    have hparsed := h.unparsed (by rw [hplace]; exact Place.noConfusion)
    refine ⟨k, ?_, hk⟩
    rw [← hstream, hparsed, hinput]
    simp
  early := h.early
  unparsed _ := h.unparsed (by rw [hplace]; exact Place.noConfusion)
  counted := by
    rw [trailing_concat, ← h.counted]
  pending hp := Place.noConfusion hp
  reached hp := Place.noConfusion hp
  unsent := by
    intro b hb
    rcases List.mem_append.mp hb with hb | hb
    · exact h.unsent b hb
    · rw [List.mem_singleton.mp hb]
      exact h.next_ne_message hplace hinput

lemma Line.parse {octet : Octet} {rest : List Octet} (h : Line garbage reader writer)
    (hplace : reader.place = .connected) (hinput : reader.input = octet :: rest) :
    Line garbage { reader with input := rest, parsed := reader.parsed ++ [octet] } writer where
  whole := by
    obtain ⟨k, hstream, hk⟩ := h.whole
    refine ⟨k, ?_, hk⟩
    rw [← hstream, hinput]
    simp
  early := h.early
  unparsed hne := absurd hplace hne
  counted := h.counted
  pending := h.pending
  reached := h.reached
  unsent := h.unsent

/-- The other end writes spaces; it is connected after the last of them. -/
lemma Line.handshake {n : ℕ} {place : Place} (h : Line garbage reader writer)
    (hplace : writer.place = .head) (hn : place = .connected → 2 * numspaces ≤ n) :
    Line garbage (reader.receives (List.replicate n ⟨space, .handshake⟩)) { writer with place := place } where
  whole := by
    obtain ⟨k, hstream, -⟩ := h.whole
    refine ⟨k + n, ?_, fun hp => (hn hp).trans (Nat.le_add_left n k)⟩
    have hsent := h.early (by rw [hplace]; exact Place.noConfusion)
    rw [hsent] at hstream
    show reader.consumed ++ reader.parsed ++ (reader.input ++ _) = stream garbage (k + n) writer.sent
    rw [hsent, ← List.append_assoc, hstream, stream_handshake]
  early _ := h.early (by rw [hplace]; exact Place.noConfusion)
  unparsed := h.unparsed
  counted := h.counted
  pending := h.pending
  reached := h.reached
  unsent := h.unsent

/-- The other end sends a byte of a message. -/
lemma Line.send {byte : UInt8} (h : Line garbage reader writer) (hplace : writer.place = .connected) :
    Line garbage (reader.receives [⟨byte, .message⟩]) { writer with sent := writer.sent ++ [byte] } where
  whole := by
    obtain ⟨k, hstream, hk⟩ := h.whole
    refine ⟨k, ?_, hk⟩
    show reader.consumed ++ reader.parsed ++ (reader.input ++ _) = stream garbage k (writer.sent ++ [byte])
    rw [← List.append_assoc, hstream, stream_message]
  early hne := absurd hplace hne
  unparsed := h.unparsed
  counted := h.counted
  pending := h.pending
  reached := h.reached
  unsent := h.unsent

/-! ### Both lines -/

/-- An action of a party keeps the line to it and the line from it. -/
lemma act_lines {garbage' : List UInt8} (hp : Line garbage p q) (hq : Line garbage' q p)
    (h : act p q a = some (p', q')) : Line garbage p' q' ∧ Line garbage' q' p' := by
  cases a with
  | turn =>
    simp only [act] at h
    split_ifs at h with hplace hcount
    · cases h
      have hparsed := hp.unparsed (by rw [hplace]; exact Place.noConfusion)
      refine ⟨(hp.congr_place (fun _ => hparsed) (fun _ => hcount) Place.noConfusion).congr_writer rfl rfl, ?_⟩
      exact hq.handshake (n := 1) hplace Place.noConfusion
    · cases h
      have hparsed := hp.unparsed (by rw [hplace]; exact Place.noConfusion)
      refine ⟨(hp.congr_place (fun _ => hparsed) Place.noConfusion
        fun _ => Nat.le_of_not_lt hcount).congr_writer rfl rfl, ?_⟩
      exact hq.handshake hplace fun _ => le_refl _
  | giveUp =>
    simp only [act] at h
    split_ifs at h with hplace
    cases h
    have hparsed := hp.unparsed (by rw [hplace.1]; exact Place.noConfusion)
    refine ⟨hp.congr_place (fun _ => hparsed) Place.noConfusion Place.noConfusion, ?_⟩
    exact hq.congr_early (by rw [hplace.1]; exact Place.noConfusion) Place.noConfusion rfl
  | timeout =>
    simp only [act] at h
    split_ifs at h with hplace
    cases h
    have hparsed := hp.unparsed (by rw [hplace]; exact Place.noConfusion)
    refine ⟨hp.congr_place (fun _ => hparsed) Place.noConfusion Place.noConfusion, ?_⟩
    exact hq.congr_early (by rw [hplace]; exact Place.noConfusion) Place.noConfusion rfl
  | read =>
    simp only [act] at h
    split at h
    next octet rest hplace hinput =>
      cases h
      refine ⟨hp.read hplace hinput, ?_⟩
      exact hq.congr_early (by rw [hplace]; exact Place.noConfusion) Place.noConfusion rfl
    next => cases h
  | send byte =>
    simp only [act] at h
    split_ifs at h with hplace
    cases h
    have hkept : Line garbage p (q.receives [⟨byte, .message⟩]) := hp.congr_writer rfl rfl
    exact ⟨hkept.congr_reader rfl rfl rfl rfl rfl, hq.send hplace⟩
  | parse =>
    simp only [act] at h
    split at h
    next octet rest hplace hinput =>
      cases h
      exact ⟨hp.parse hplace hinput, hq.congr_writer rfl rfl⟩
    next => cases h

lemma step_lines {garbage : Side → List UInt8} {s t : System} {side : Side}
    (hs : ∀ i, Line (garbage i) (s.party i) (s.party i.other)) (h : step s side a = some t) (i : Side) :
    Line (garbage i) (t.party i) (t.party i.other) := by
  cases side with
  | left =>
    obtain ⟨r, hr, rfl⟩ := Option.map_eq_some_iff.mp h
    obtain ⟨hleft, hright⟩ := act_lines (hs .left) (hs .right) hr
    cases i with
    | left => exact hleft
    | right => exact hright
  | right =>
    obtain ⟨r, hr, rfl⟩ := Option.map_eq_some_iff.mp h
    obtain ⟨hright, hleft⟩ := act_lines (hs .right) (hs .left) hr
    cases i with
    | left => exact hleft
    | right => exact hright

lemma run_lines {garbage : Side → List UInt8} {actions : List (Side × Action)} {s t : System}
    (hs : ∀ i, Line (garbage i) (s.party i) (s.party i.other)) (h : run actions s = some t) (i : Side) :
    Line (garbage i) (t.party i) (t.party i.other) := by
  induction actions generalizing s with
  | nil =>
    cases h
    exact hs i
  | cons x actions ih =>
    obtain ⟨u, hu, ht⟩ := Option.bind_eq_some_iff.mp h
    exact ih (step_lines hs hu) ht

lemma start_lines (garbage : Side → List UInt8) (i : Side) :
    Line (garbage i) ((System.start garbage).party i) ((System.start garbage).party i.other) := by
  have hstart : ∀ g g' : List UInt8, Line g { input := g.map (⟨·, .garbage⟩) } { input := g'.map (⟨·, .garbage⟩) } := by
    intro g g'
    refine ⟨⟨0, ?_, Place.noConfusion⟩, fun _ => rfl, fun _ => rfl, rfl, Place.noConfusion, Place.noConfusion, ?_⟩
    · simp [stream]
    · simp
  cases i with
  | left => exact hstart _ _
  | right => exact hstart _ _

/-! ### What a handshake leaves -/

/-- Once connected, the handshake has read all of the garbage. -/
lemma Line.garbage_read (h : Line garbage reader writer)
    (hgarbage : ¬ List.replicate numspaces space <:+: garbage) (hplace : reader.place = .connected) :
    garbage.length ≤ reader.consumed.length := by
  by_contra hless
  obtain ⟨k, hstream, -⟩ := h.whole
  have hreached := h.reached hplace
  rw [h.counted] at hreached
  refine hgarbage ((infix_of_trailing hreached).trans ?_)
  have hinitial : reader.consumed <+: garbage.map (⟨·, .garbage⟩) := by
    have hread : reader.consumed <+: stream garbage k writer.sent := by
      rw [← hstream, List.append_assoc]
      exact List.prefix_append _ _
    refine List.prefix_of_prefix_length_le hread ?_ (by simp; omega)
    rw [stream, List.append_assoc]
    exact List.prefix_append _ _
  have hvalues := (hinitial.map (·.value)).isInfix
  rw [List.map_map] at hvalues
  simpa [Function.comp_def] using hvalues

/-- The bytes ahead of the first message are spaces. -/
lemma Line.ahead (h : Line garbage reader writer)
    (hgarbage : ¬ List.replicate numspaces space <:+: garbage) (hplace : reader.place = .connected) :
    ∃ ahead later, reader.input = ahead ++ later ∧
      (∀ octet ∈ ahead, octet.value = space ∧ octet.origin ≠ .message) ∧
      ∀ octet ∈ later, octet.origin = .message := by
  obtain ⟨k, hstream, -⟩ := h.whole
  have hread := h.garbage_read hgarbage hplace
  have hinput : reader.input = (reader.consumed ++ reader.parsed ++ reader.input).drop
      (reader.consumed ++ reader.parsed).length := by rw [List.drop_left]
  rw [hstream, stream, List.append_assoc, List.drop_append, List.drop_eq_nil_of_le, List.nil_append,
    List.drop_append] at hinput
  · refine ⟨_, _, hinput, fun octet hoctet => ?_, fun octet hoctet => ?_⟩
    · obtain ⟨-, rfl⟩ := List.mem_replicate.mp (List.mem_of_mem_drop hoctet)
      exact ⟨rfl, Origin.noConfusion⟩
    · obtain ⟨byte, -, rfl⟩ := List.mem_map.mp (List.mem_of_mem_drop hoctet)
      rfl
  · rw [List.length_map, List.length_append]
    omega

/-- The messages of the other end have been read by the parser, or are on the line. -/
lemma Line.messages (h : Line garbage reader writer) :
    ((reader.parsed ++ reader.input).filter (·.origin = .message)).map (·.value) = writer.sent := by
  obtain ⟨k, hstream, -⟩ := h.whole
  have hconsumed : reader.consumed.filter (·.origin = .message) = [] := by
    rw [List.filter_eq_nil_iff]
    exact fun octet hoctet => by simpa using h.unsent octet hoctet
  have hgarbage : (garbage.map fun b => (⟨b, .garbage⟩ : Octet)).filter (·.origin = .message) = [] := by
    rw [List.filter_eq_nil_iff]
    intro octet hoctet
    obtain ⟨byte, -, rfl⟩ := List.mem_map.mp hoctet
    simp
  have hspaces : (List.replicate k (⟨space, .handshake⟩ : Octet)).filter (·.origin = .message) = [] := by
    rw [List.filter_eq_nil_iff]
    intro octet hoctet
    rw [(List.mem_replicate.mp hoctet).2]
    simp
  have hsent : (writer.sent.map fun b => (⟨b, .message⟩ : Octet)).filter (·.origin = .message) =
      writer.sent.map (⟨·, .message⟩) := by
    rw [List.filter_eq_self]
    intro octet hoctet
    obtain ⟨byte, -, rfl⟩ := List.mem_map.mp hoctet
    simp
  have hall := congrArg (List.filter (·.origin = .message)) hstream
  simp only [stream, List.append_assoc, List.filter_append, hconsumed, hgarbage, hspaces, hsent,
    List.nil_append] at hall
  rw [List.filter_append, hall, List.map_map]
  simp [Function.comp_def]

end

/-- In every run, a handshake reads no byte that the other end has sent after its own handshake, what is
ahead of the first message once it has ended are spaces, and no message is lost. -/
theorem handshake_safe (garbage : Side → List UInt8)
    (hgarbage : ∀ side, ¬ List.replicate numspaces space <:+: garbage side)
    (actions : List (Side × Action)) (s : System) (hrun : run actions (.start garbage) = some s)
    (side : Side) :
    (∀ octet ∈ (s.party side).consumed, octet.origin ≠ .message) ∧
    ((s.party side).place = .connected →
      ∃ ahead later, (s.party side).input = ahead ++ later ∧
        (∀ octet ∈ ahead, octet.value = space ∧ octet.origin ≠ .message) ∧
        ∀ octet ∈ later, octet.origin = .message) ∧
    (((s.party side).parsed ++ (s.party side).input).filter (·.origin = .message)).map (·.value) =
      (s.party side.other).sent := by
  have hline := run_lines (start_lines garbage) hrun side
  exact ⟨hline.unsent, hline.ahead (hgarbage side), hline.messages⟩

/-- Garbage on the line to the right, which ends in a space. -/
def noise : Side → List UInt8
  | .left => []
  | .right => [97, 32]

/-- The left end goes first and sends a message; the right end then reads up to its own connection. -/
def leftFirst : List (Side × Action) :=
  (List.replicate 16 [(Side.right, Action.turn), (.left, .turn), (.left, .read), (.right, .timeout)]).flatten ++
  [(.left, .turn), (.left, .send 40)] ++
  (List.replicate 17 [(Side.right, Action.turn), (.right, .read)]).flatten ++ [(Side.right, Action.turn)]

/-- The right end is connected while a message of the left end is on the line. -/
theorem handshake_safe_leftFirst :
    ∃ s, run leftFirst (.start noise) = some s ∧ s.right.place = .connected ∧ s.left.sent = [40] ∧
      (∀ octet ∈ s.right.consumed, octet.origin ≠ .message) ∧
      ((s.right.parsed ++ s.right.input).filter (·.origin = .message)).map (·.value) = [40] := by
  have hnoise : ∀ side, ¬ List.replicate numspaces space <:+: noise side := by
    rintro side h
    have hlength := h.length_le
    cases side <;> simp [noise, numspaces] at hlength
  refine ⟨_, rfl, rfl, rfl, ?_⟩
  have hsafe := handshake_safe noise hnoise leftFirst _ rfl .right
  exact ⟨hsafe.1, hsafe.2.2⟩

end YastCore.Transport.Serial
