import YastCore.Lib.Lines
import YastCore.Lib.Loop
import YastCore.Value.WellFormed

/-!
# The message loops of the client components

`doActualWork` of the program, the serial and the stdio component, from the first message of the client
on. The connection is up and what is written to it arrives. A message is what one call of the parser
makes of the stream.
-/

namespace YastCore.Transport.Client

open Lines Loop

/-! ### The stream and the parser -/

/-- What the client sends. -/
inductive Message where
  | value (v : YCPValue) (wellFormed : v.WellFormed)
  | unparsable

/-- What the parser returns: a constant, code that has to be run and gives this value, or a `YError`. -/
inductive Code where
  | constant (v : YCPValue)
  | executable (w : YCPValue)
  | error

def Code.isError : Code → Bool
  | error => true
  | _ => false

def Code.evaluate (cse : Bool) : Code → YCPValue
  | constant v => v
  | executable w => if cse then .null else w
  | error => .null

def Message.code : Message → Option Code
  | value v _ => some (.constant v)
  | unparsable => none

structure Parser where
  input : List Message
  m_at_eof : Bool := false

def Parser.parse (parser : Parser) : Option Code × Parser :=
  match parser.input with
  | [] => (none, { parser with m_at_eof := true })
  | m :: rest => (m.code, { parser with input := rest })

/-! ### The loops -/

/-- What is handed to the user interface: a value, or a `YCPCode` around the code or the null pointer. -/
inductive Command where
  | value (v : YCPValue)
  | code (c : Option Code)

def Command.isNull : Command → Bool
  | value v => v.isNull
  | code _ => false

/-- The argument of a term `result` with one argument. -/
def asResult : YCPValue → Option YCPValue
  | .term name [v] => if name = ascii "result" then some v else none
  | _ => none

def Command.asResult : Command → Option YCPValue
  | value v => Client.asResult v
  | code _ => none

inductive Event where
  /-- `user_interface->evaluate`. -/
  | asks (command : Command)
  /-- The answer of the user interface is written. -/
  | sends (answer : YCPValue)
  /-- `(nil)` is written in place of an answer. -/
  | rejects

/-- The state of the loop: the stream, the user interface, and what has happened, in order. -/
structure Session (σ : Type) where
  parser : Parser
  interface : σ
  log : List Event := []

variable {σ : Type} (ui : σ → Command → YCPValue × σ)

/-- The state after the user interface has answered and the answer has been written. -/
def Session.exchange (s : Session σ) (command : Command) : Session σ :=
  { s with
    interface := (ui s.interface command).2
    log := s.log ++ [.asks command, .sends (ui s.interface command).1] }

/-- `Y2ProgramComponent::receiveFromExternal`. -/
def receiveFromExternal (c : Option Code) : YCPValue :=
  match c with
  | none => .null
  | some c =>
    if c.isError then .null
    else if (c.evaluate true).isNull then c.evaluate false
    else c.evaluate true

/-- A pass through the loop of `Y2ProgramComponent::doActualWork`. The text of a null answer is asked of
a null pointer. -/
def programPass (s : Session σ) : Pass (Session σ) Command :=
  let (c, parser) := s.parser.parse
  let value := receiveFromExternal c
  if value.isNull then .returns { s with parser := parser } (.value .void)
  else
    match asResult value with
    | some retval => .returns { s with parser := parser } (.value (if retval.isNull then .void else retval))
    | none =>
      if (ui s.interface (.value value)).1.isNull then .crashes
      else .again (Session.exchange ui { s with parser := parser } (.value value))

/-- A pass through the loop of `Y2SerialComponent::doActualWork`. -/
def serialPass (s : Session σ) : Pass (Session σ) Command :=
  let (c, parser) := s.parser.parse
  let value := Command.code c
  if value.isNull then .returns { s with parser := parser } (.value .void)
  else
    match value.asResult with
    | some _ => .returns { s with parser := parser } value
    | none =>
      if (ui s.interface value).1.isNull then .crashes
      else .again (Session.exchange ui { s with parser := parser } value)

/-- `Y2StdioComponent::receive`. -/
def receive (c : Option Code) : Command :=
  match c with
  | none => .value .null
  | some c => if (c.evaluate true).isNull then .code (some c) else .value (c.evaluate true)

/-- A pass through the loop of `Y2StdioComponent::doActualWork`. -/
def stdioPass (s : Session σ) : Pass (Session σ) Command :=
  if s.parser.m_at_eof then .returns s (.value .void)
  else
    let (c, parser) := s.parser.parse
    let value := receive c
    if value.isNull then .again { s with parser := parser, log := s.log ++ [.rejects] }
    else
      match value.asResult with
      | some retval => .returns { s with parser := parser } (.value retval)
      | none => .again (Session.exchange ui { s with parser := parser } value)

inductive Transport where
  | program
  | serial
  | stdio

def Transport.pass : Transport → Session σ → Pass (Session σ) Command
  | program => programPass ui
  | serial => serialPass ui
  | stdio => stdioPass ui

/-! ### The protocol -/

/-- The values before the first `result (v)`. -/
def served : List Message → List YCPValue
  | [] => []
  | .unparsable :: rest => served rest
  | .value v _ :: rest => if (asResult v).isSome then [] else v :: served rest

/-- The `v` of the first `result (v)`, or nil. -/
def outcome : List Message → YCPValue
  | [] => .void
  | .unparsable :: rest => outcome rest
  | .value v _ :: rest => (asResult v).getD (outcome rest)

/-- Each value is handed to the user interface and answered. -/
def dialogue : σ → List YCPValue → List Event
  | _, [] => []
  | s, v :: rest =>
    .asks (.value v) :: .sends (ui s (.value v)).1 :: dialogue (ui s (.value v)).2 rest

def Event.isExchange : Event → Bool
  | rejects => false
  | _ => true

/-- The loop returns the result, and has had the dialogue with the client and the user interface. -/
def Conforms (transport : Transport) (s : Session σ) : Prop :=
  ∃ t, Returns (transport.pass ui) s t (.value (outcome s.parser.input)) ∧
    t.log.filter Event.isExchange =
      s.log.filter Event.isExchange ++ dialogue ui s.interface (served s.parser.input)

/-- No value follows, or the next one is `result (nil)`. -/
def Silent : List Message → Prop
  | [] => True
  | .unparsable :: rest => Silent rest
  | .value v _ :: _ => asResult v = some .void

/-- Until the first `result (v)`, nothing that matters follows a text that cannot be parsed. -/
def Parsable : List Message → Prop
  | [] => True
  | .unparsable :: rest => Silent rest
  | .value v _ :: rest => (asResult v).isSome ∨ Parsable rest

/-- The user interface has an answer to each of the values. -/
def Answered : σ → List YCPValue → Prop
  | _, [] => True
  | s, v :: rest => (ui s (.value v)).1.isNull = false ∧ Answered (ui s (.value v)).2 rest

/-- When a transport runs the protocol. -/
def Meets : Transport → σ → List Message → Prop
  | .program, s, messages => Parsable messages ∧ Answered ui s (served messages)
  | .serial, _, _ => False
  | .stdio, _, _ => True

/-! ### One message -/

variable {ui} {s : Session σ} {v : YCPValue} {messages rest : List Message}

lemma asResult_notNull {r : YCPValue} (hv : v.WellFormed) (h : asResult v = some r) : r.isNull = false := by
  unfold asResult at h
  split at h
  next =>
    split_ifs at h
    cases h
    exact (hv.args _ (List.mem_singleton_self _)).notNull
  next => cases h

/-- The session in which the parser has gone on to these messages. -/
def Session.reads (s : Session σ) (rest : List Message) : Session σ :=
  { s with parser := { s.parser with input := rest } }

lemma parse_cons {m : Message} (h : s.parser.input = m :: rest) :
    s.parser.parse = (m.code, (s.reads rest).parser) := by
  rw [Parser.parse, h]
  rfl

lemma parse_nil (h : s.parser.input = []) : s.parser.parse = (none, { s.parser with m_at_eof := true }) := by
  rw [Parser.parse, h]
  show _ = (none, Parser.mk s.parser.input true)
  rw [h]

lemma programPass_end (h : s.parser.input = []) :
    programPass ui s = .returns { s with parser := { s.parser with m_at_eof := true } } (.value .void) := by
  rw [programPass, parse_nil h]
  rfl

lemma programPass_unparsable (h : s.parser.input = .unparsable :: rest) :
    programPass ui s = .returns (s.reads rest) (.value .void) := by
  rw [programPass, parse_cons h]
  rfl

lemma receiveFromExternal_value {hv : v.WellFormed} :
    receiveFromExternal (Message.value v hv).code = v := by
  simp only [Message.code, receiveFromExternal, Code.isError, Code.evaluate, hv.notNull,
    Bool.false_eq_true, if_false]

lemma receive_value {hv : v.WellFormed} : receive (Message.value v hv).code = .value v := by
  simp only [Message.code, receive, Code.evaluate, hv.notNull, Bool.false_eq_true, if_false]

lemma programPass_result {hv : v.WellFormed} {r : YCPValue} (h : s.parser.input = .value v hv :: rest)
    (hr : asResult v = some r) : programPass ui s = .returns (s.reads rest) (.value r) := by
  rw [programPass, parse_cons h]
  dsimp only
  rw [receiveFromExternal_value, hv.notNull, hr]
  simp only [Bool.false_eq_true, if_false, asResult_notNull hv hr]
  rfl

lemma programPass_value {hv : v.WellFormed} (h : s.parser.input = .value v hv :: rest)
    (hr : asResult v = none) :
    programPass ui s = if (ui s.interface (.value v)).1.isNull then .crashes
      else .again ((s.reads rest).exchange ui (.value v)) := by
  rw [programPass, parse_cons h]
  dsimp only
  rw [receiveFromExternal_value, hv.notNull, hr]
  rfl

lemma stdioPass_open (h : s.parser.m_at_eof = false) :
    stdioPass ui s =
      let (c, parser) := s.parser.parse
      if (receive c).isNull then .again { s with parser := parser, log := s.log ++ [.rejects] }
      else
        match (receive c).asResult with
        | some retval => .returns { s with parser := parser } (.value retval)
        | none => .again (Session.exchange ui { s with parser := parser } (receive c)) := by
  rw [stdioPass, h]
  rfl

lemma stdioPass_end (heof : s.parser.m_at_eof = false) (h : s.parser.input = []) :
    stdioPass ui s =
      .again { s with parser := { s.parser with m_at_eof := true }, log := s.log ++ [.rejects] } := by
  rw [stdioPass_open heof, parse_nil h]
  rfl

lemma stdioPass_unparsable (heof : s.parser.m_at_eof = false) (h : s.parser.input = .unparsable :: rest) :
    stdioPass ui s = .again { s.reads rest with log := s.log ++ [.rejects] } := by
  rw [stdioPass_open heof, parse_cons h]
  rfl

lemma stdioPass_result {hv : v.WellFormed} {r : YCPValue} (heof : s.parser.m_at_eof = false)
    (h : s.parser.input = .value v hv :: rest) (hr : asResult v = some r) :
    stdioPass ui s = .returns (s.reads rest) (.value r) := by
  rw [stdioPass_open heof, parse_cons h]
  dsimp only
  rw [receive_value, Command.isNull, hv.notNull, Command.asResult, hr]
  rfl

lemma stdioPass_value {hv : v.WellFormed} (heof : s.parser.m_at_eof = false)
    (h : s.parser.input = .value v hv :: rest) (hr : asResult v = none) :
    stdioPass ui s = .again ((s.reads rest).exchange ui (.value v)) := by
  rw [stdioPass_open heof, parse_cons h]
  dsimp only
  rw [receive_value, Command.isNull, hv.notNull, Command.asResult, hr]
  rfl

/-! ### The protocol, message by message -/

lemma served_value {hv : v.WellFormed} (hr : asResult v = none) :
    served (.value v hv :: rest) = v :: served rest := by
  rw [served, hr]
  rfl

lemma served_result {hv : v.WellFormed} {r : YCPValue} (hr : asResult v = some r) :
    served (.value v hv :: rest) = [] := by
  rw [served, hr]
  rfl

lemma outcome_value {hv : v.WellFormed} (hr : asResult v = none) :
    outcome (.value v hv :: rest) = outcome rest := by
  rw [outcome, hr]
  rfl

lemma outcome_result {hv : v.WellFormed} {r : YCPValue} (hr : asResult v = some r) :
    outcome (.value v hv :: rest) = r := by
  rw [outcome, hr]
  rfl

lemma silent_iff : Silent messages ↔ served messages = [] ∧ outcome messages = .void := by
  induction messages with
  | nil => exact ⟨fun _ => ⟨rfl, rfl⟩, fun _ => trivial⟩
  | cons m rest ih =>
    cases m with
    | unparsable => exact ih
    | value v hv =>
      cases hr : asResult v with
      | none =>
        rw [served_value hr, Silent, hr]
        simp
      | some r =>
        rw [served_result hr, outcome_result hr, Silent, hr]
        simp

/-- After an exchange the loop is held to what is left of the protocol. -/
lemma conforms_exchange {transport : Transport} {hv : v.WellFormed} (hr : asResult v = none)
    (h : s.parser.input = .value v hv :: rest)
    (hpass : transport.pass ui s = .again ((s.reads rest).exchange ui (.value v))) :
    Conforms ui transport s ↔ Conforms ui transport ((s.reads rest).exchange ui (.value v)) := by
  have hlog : ((s.reads rest).exchange ui (.value v)).log.filter Event.isExchange =
      s.log.filter Event.isExchange ++ [Event.asks (.value v), .sends (ui s.interface (.value v)).1] := by
    rw [Session.exchange, List.filter_append]
    rfl
  have hdialogue : dialogue ui s.interface (served s.parser.input) =
      [Event.asks (.value v), .sends (ui s.interface (.value v)).1] ++
        dialogue ui (ui s.interface (.value v)).2 (served rest) := by
    rw [h, served_value hr]
    rfl
  have houtcome : outcome s.parser.input = outcome rest := by rw [h, outcome_value hr]
  unfold Conforms
  rw [hlog, hdialogue, houtcome]
  simp only [returns_of_again hpass, List.append_assoc]
  rfl

/-- A text that is refused changes nothing in the protocol. -/
lemma conforms_reject {transport : Transport} {parser : Parser}
    (hpass : transport.pass ui s = .again { s with parser := parser, log := s.log ++ [.rejects] })
    (hserved : served parser.input = served s.parser.input)
    (houtcome : outcome parser.input = outcome s.parser.input) :
    Conforms ui transport s ↔
      Conforms ui transport { s with parser := parser, log := s.log ++ [.rejects] } := by
  have hlog : (s.log ++ [Event.rejects]).filter Event.isExchange = s.log.filter Event.isExchange := by
    rw [List.filter_append]
    exact List.append_nil _
  unfold Conforms
  simp only [returns_of_again hpass, hlog, hserved, houtcome]

/-- A loop that leaves without a further exchange conforms if the protocol ends here. -/
lemma conforms_returns {transport : Transport} {t : Session σ} {a : YCPValue}
    (hpass : transport.pass ui s = .returns t (.value a)) (hlog : t.log = s.log) :
    Conforms ui transport s ↔ served s.parser.input = [] ∧ outcome s.parser.input = a := by
  have hdialogue : dialogue ui s.interface (served s.parser.input) = [] ↔ served s.parser.input = [] := by
    cases served s.parser.input <;> simp [dialogue]
  constructor
  · rintro ⟨t', hreturns, hlog'⟩
    rw [returns_of_returns hpass, Command.value.injEq] at hreturns
    obtain ⟨rfl, rfl⟩ := hreturns
    rw [hlog, List.self_eq_append_right, hdialogue] at hlog'
    exact ⟨hlog', rfl⟩
  · rintro ⟨hserved, rfl⟩
    refine ⟨t, (returns_of_returns hpass).mpr ⟨rfl, rfl⟩, ?_⟩
    rw [hlog, hdialogue.mpr hserved, List.append_nil]

/-! ### The three transports -/

lemma program_conforms_iff (h : s.parser.input = messages) :
    Conforms ui .program s ↔ Parsable messages ∧ Answered ui s.interface (served messages) := by
  induction messages generalizing s with
  | nil =>
    have hpass : Transport.program.pass ui s = _ := programPass_end h
    rw [conforms_returns hpass rfl, h]
    exact ⟨fun _ => ⟨trivial, trivial⟩, fun _ => ⟨rfl, rfl⟩⟩
  | cons m rest ih =>
    cases m with
    | unparsable =>
      have hpass : Transport.program.pass ui s = _ := programPass_unparsable h
      rw [conforms_returns hpass rfl, h]
      show served rest = [] ∧ outcome rest = .void ↔ Silent rest ∧ Answered ui s.interface (served rest)
      rw [silent_iff, iff_self_and]
      rintro ⟨hserved, -⟩
      rw [hserved]
      trivial
    | value v hv =>
      cases hr : asResult v with
      | some r =>
        have hpass : Transport.program.pass ui s = _ := programPass_result h hr
        rw [conforms_returns hpass rfl, h, served_result hr, outcome_result hr, Parsable, hr]
        simp [Answered]
      | none =>
        have hpass : Transport.program.pass ui s = _ := programPass_value h hr
        rw [served_value hr, Parsable, hr, Answered]
        cases hnull : (ui s.interface (.value v)).1.isNull with
        | true =>
          rw [hnull, if_pos rfl] at hpass
          refine iff_of_false ?_ (by simp)
          rintro ⟨t, hreturns, -⟩
          exact not_returns_of_crashes hpass hreturns
        | false =>
          rw [hnull, if_neg Bool.false_ne_true] at hpass
          rw [conforms_exchange hr h hpass, ih rfl]
          simp [Session.exchange, Session.reads]

lemma stdio_conforms (h : s.parser.input = messages) (heof : s.parser.m_at_eof = false) :
    Conforms ui .stdio s := by
  induction messages generalizing s with
  | nil =>
    have hpass : Transport.stdio.pass ui s = _ := stdioPass_end heof h
    rw [conforms_reject hpass rfl rfl]
    have hleave : stdioPass ui { s with
        parser := { s.parser with m_at_eof := true }, log := s.log ++ [.rejects] } = _ := if_pos rfl
    change Transport.stdio.pass ui _ = _ at hleave
    refine (conforms_returns hleave rfl).mpr ?_
    show served s.parser.input = [] ∧ outcome s.parser.input = .void
    rw [h]
    exact ⟨rfl, rfl⟩
  | cons m rest ih =>
    cases m with
    | unparsable =>
      have hpass : Transport.stdio.pass ui s = _ := stdioPass_unparsable heof h
      rw [conforms_reject hpass (by rw [h]; rfl) (by rw [h]; rfl)]
      exact ih rfl heof
    | value v hv =>
      cases hr : asResult v with
      | some r =>
        have hpass : Transport.stdio.pass ui s = _ := stdioPass_result heof h hr
        rw [conforms_returns hpass rfl, h]
        exact ⟨served_result hr, outcome_result hr⟩
      | none =>
        have hpass : Transport.stdio.pass ui s = _ := stdioPass_value heof h hr
        rw [conforms_exchange hr h hpass]
        exact ih rfl heof

/-- What is received over the serial line is never null and never a term, so the loop is never left. -/
lemma serial_never_returns {t : Session σ} {a : Command} :
    ¬ Returns (Transport.serial.pass ui) s t a := by
  refine not_returns_of_invariant (fun _ => True) (fun s _ => ?_) trivial
  show (∃ t, serialPass ui s = .again t ∧ True) ∨ serialPass ui s = .crashes
  rw [serialPass]
  simp only [Command.isNull, Command.asResult, Bool.false_eq_true, if_false]
  split
  · exact .inr rfl
  · exact .inl ⟨_, rfl, trivial⟩

variable (ui)

/-- The loop over a connection on which nothing has been received. -/
def Session.start (interface : σ) (messages : List Message) : Session σ := ⟨⟨messages, false⟩, interface, []⟩

/-- The stdio component runs the protocol, the program component as long as the texts can be parsed and
the user interface answers, the serial component never. -/
theorem conforms_iff (transport : Transport) (interface : σ) (messages : List Message) :
    Conforms ui transport (.start interface messages) ↔ Meets ui transport interface messages := by
  cases transport with
  | program => exact program_conforms_iff rfl
  | serial => exact iff_of_false (fun ⟨_, hreturns, _⟩ => serial_never_returns hreturns) id
  | stdio => exact iff_of_true (stdio_conforms rfl rfl) trivial

/-- A user interface that answers nil. -/
def nilInterface (s : Unit) (_ : Command) : YCPValue × Unit := (.void, s)

def resultOne : Message :=
  .value (.term (ascii "result") [.integer 1]) (.term fun v hv => by
    rw [List.mem_singleton] at hv
    subst hv
    exact .plain rfl rfl)

/-- The serial component does not return on `result (1)`. The program component returns nil when a text
before it cannot be parsed. -/
theorem not_conforms :
    ¬ (∀ (transport : Transport) (messages : List Message),
      Conforms nilInterface transport (.start () messages)) ∧
      ¬ Conforms nilInterface .serial (.start () [resultOne]) ∧
      ¬ Conforms nilInterface .program (.start () [.unparsable, resultOne]) := by
  have hserial : ¬ Conforms nilInterface .serial (.start () [resultOne]) := fun ⟨_, hreturns, _⟩ =>
    serial_never_returns hreturns
  refine ⟨fun hall => hserial (hall .serial [resultOne]), hserial, ?_⟩
  rw [program_conforms_iff rfl]
  rintro ⟨hsilent, -⟩
  cases hsilent

end YastCore.Transport.Client
