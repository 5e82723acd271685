import YastCore.Value.Path

/-!
# The output of a process

`Process` collects what a program writes in `stdout_buffer`, by lines and by blocks, and
`ProcessAgent::Read` hands it on. The lines pass through a local array of characters that is treated
as a C string.
-/

namespace YastCore.Process

/-! ### Reading from the stream -/

/-- The `length` of the array in `receiveUpto` and the size of a block in `readStdoutToBuffer`. -/
def bufferLength : Nat := 4096

/-- The inner loop of `receiveUpto`: what is stored in the array with `room` left, and what stays in
the stream. -/
def fillBuffer (c : UInt8) : Nat → Text → Text × Text
  | 0, available => ([], available)
  | _ + 1, [] => ([], [])
  | room + 1, readc :: available =>
    if readc = c then ([readc], available)
    else
      let filled := fillBuffer c room available
      (readc :: filled.1, filled.2)

/-- The result of `receiveUpto`, what stays in the stream, and whether the NUL after a full array was
stored outside of it. -/
structure Received where
  result : Text
  rest : Text
  overrun : Bool

/-- The outer loop of `receiveUpto`. -/
def receiveUptoLoop (c : UInt8) : Nat → Text → Received
  | 0, available => ⟨[], available, false⟩
  | fuel + 1, available =>
    let filled := fillBuffer c bufferLength available
    let full := filled.1.length = bufferLength
    if full ∧ filled.1.getLast? ≠ some c then
      let received := receiveUptoLoop c fuel filled.2
      { received with result := cut filled.1 ++ received.result, overrun := true }
    else ⟨cut filled.1, filled.2, full⟩

def receiveUpto (c : UInt8) (available : Text) : Received :=
  receiveUptoLoop c (available.length + 1) available

/-- The loop of `readStdoutToBuffer`: the buffer and what stays in the stream. -/
def readBlocks : Nat → Text → Text → Text × Text
  | 0, buffer, available => (buffer, available)
  | fuel + 1, buffer, available =>
    let read := available.take bufferLength
    let buffer := buffer ++ read
    if read.length = bufferLength then readBlocks fuel buffer (available.drop bufferLength)
    else (buffer, available.drop bufferLength)

/-! ### The process -/

/-- `available` are the bytes that the program has written and that were not taken from the stream;
`overrun` observes a byte that was stored outside of the array. -/
structure Process where
  available : Text
  stdout_buffer : Text
  overrun : Bool

def newline : UInt8 := 10

namespace Process

def bufferNewStdoutLines (p : Process) : Process :=
  let received := receiveUpto newline p.available
  ⟨received.rest, p.stdout_buffer ++ received.result, p.overrun || received.overrun⟩

def readStdoutToBuffer (p : Process) : Process :=
  let read := readBlocks (p.available.length + 1) p.stdout_buffer p.available
  { p with available := read.2, stdout_buffer := read.1 }

/-- `GetLineFromBuffer`: the first line and the rest of the buffer. -/
def getLineFromBuffer (buffer : Text) : Text × Text :=
  if newline ∈ buffer then
    let pos := buffer.idxOf newline
    (buffer.take (pos + 1), buffer.drop (pos + 1))
  else ([], buffer)

def readLine (p : Process) : Process × Text :=
  let p := p.bufferNewStdoutLines
  let line := getLineFromBuffer p.stdout_buffer
  ({ p with stdout_buffer := line.2 }, line.1)

def read (p : Process) : Process × Text :=
  let p := p.readStdoutToBuffer
  ({ p with stdout_buffer := [] }, p.stdout_buffer)

def anyLineInStdout (p : Process) : Process × Bool :=
  let p := p.bufferNewStdoutLines
  (p, p.stdout_buffer.isEmpty)

end Process

/-- The paths of `ProcessAgent::Read` that concern the standard output. Whether the process is running
is up to the system. -/
inductive Request where
  | read_line
  | read
  | running (isRunning : Bool)
  | buffer_empty

/-- `ProcessOutput`: without the trailing newline. -/
def processOutput (output : Text) : YCPValue :=
  if output.isEmpty then .void else .string output.dropLast

def request (p : Process) : Request → Process × YCPValue
  | .read_line => (p.readLine.1, processOutput p.readLine.2)
  | .read => (p.read.1, if p.read.2.isEmpty then .void else .string p.read.2)
  | .running isRunning => (p.readStdoutToBuffer, .boolean isRunning)
  | .buffer_empty => (p.anyLineInStdout.1, .boolean p.anyLineInStdout.2)

/-! ### Runs -/

/-- The data in an answer, a line counted with its newline. -/
def dataOf : Request → YCPValue → Text
  | .read_line, .string line => line ++ [newline]
  | .read, .string t => t
  | _, _ => []

inductive Step where
  | write (chunk : Text)
  | request (r : Request)

/-- A process with what the program wrote, what was taken from the stream and what was returned. -/
structure Run where
  process : Process
  written : Text
  taken : Text
  returned : Text

def Run.start : Run := ⟨⟨[], [], false⟩, [], [], []⟩

def Run.step (r : Run) : Step → Run
  | .write chunk => { r with
      process := { r.process with available := r.process.available ++ chunk },
      written := r.written ++ chunk }
  | .request q =>
    let answered := request r.process q
    { r with
      process := answered.1,
      taken := r.taken ++
        r.process.available.take (r.process.available.length - answered.1.available.length),
      returned := r.returned ++ dataOf q answered.2 }

def Run.steps (r : Run) (l : List Step) : Run := l.foldl Run.step r

/-- What was returned and what is buffered are the bytes that were taken, a prefix of those that were
written, and no byte was stored outside of the array. -/
structure Kept (r : Run) : Prop where
  data : r.returned ++ r.process.stdout_buffer = r.taken
  written : r.taken <+: r.written
  inside : r.process.overrun = false

/-- What is read up to and with a character. -/
def upto (c : UInt8) : Text → Text
  | [] => []
  | b :: l => if b = c then [b] else b :: upto c l

/-- What a read by lines takes from the stream has no NUL and is shorter than the array. -/
def LineFits (available : Text) : Prop :=
  0 ∉ upto newline available ∧ (upto newline available).length < bufferLength

/-- A step that reads a line finds one that fits. -/
def StepFits (r : Run) : Step → Prop
  | .request .read_line => LineFits r.process.available
  | .request .buffer_empty => LineFits r.process.available
  | _ => True

def AllFit (r : Run) : List Step → Prop
  | [] => True
  | s :: l => StepFits r s ∧ AllFit (r.step s) l

/-! ### The two readers -/

lemma fillBuffer_fst (c : UInt8) (room : Nat) (l : Text) :
    (fillBuffer c room l).1 = (upto c l).take room := by
  induction room generalizing l with
  | zero => simp [fillBuffer]
  | succ room ih =>
    cases l with
    | nil => simp [fillBuffer, upto]
    | cons b l =>
      unfold fillBuffer upto
      split
      · simp
      · simp [ih l]

lemma fillBuffer_append (c : UInt8) (room : Nat) (l : Text) :
    (fillBuffer c room l).1 ++ (fillBuffer c room l).2 = l := by
  induction room generalizing l with
  | zero => simp [fillBuffer]
  | succ room ih =>
    cases l with
    | nil => simp [fillBuffer]
    | cons b l =>
      unfold fillBuffer
      split
      · simp
      · simp [ih l]

/-- `receiveUpto` takes a piece of the stream and gives at most that. -/
lemma receiveUptoLoop_taken (c : UInt8) (fuel : Nat) (available : Text) :
    ∃ taken, available = taken ++ (receiveUptoLoop c fuel available).rest ∧
      (receiveUptoLoop c fuel available).result.length ≤ taken.length := by
  induction fuel generalizing available with
  | zero => exact ⟨[], rfl, Nat.le_refl _⟩
  | succ fuel ih =>
    have happend := fillBuffer_append c bufferLength available
    have hcut := cut_length_le (fillBuffer c bufferLength available).1
    unfold receiveUptoLoop
    dsimp only
    split
    · obtain ⟨taken, htaken, hlength⟩ := ih (fillBuffer c bufferLength available).2
      refine ⟨(fillBuffer c bufferLength available).1 ++ taken, ?_, ?_⟩
      · rw [List.append_assoc, ← htaken, happend]
      · simp only [List.length_append]
        omega
    · exact ⟨(fillBuffer c bufferLength available).1, happend.symm, hcut⟩

/-- A line that fits is received as it is. -/
lemma receiveUpto_of_fits {available : Text} (h : LineFits available) :
    (receiveUpto newline available).result = upto newline available ∧
      upto newline available ++ (receiveUpto newline available).rest = available ∧
      (receiveUpto newline available).overrun = false := by
  have hstored : (fillBuffer newline bufferLength available).1 = upto newline available := by
    rw [fillBuffer_fst, List.take_of_length_le (Nat.le_of_lt h.2)]
  have happend := fillBuffer_append newline bufferLength available
  rw [hstored] at happend
  have hfull : (upto newline available).length ≠ bufferLength := Nat.ne_of_lt h.2
  unfold receiveUpto receiveUptoLoop
  dsimp only
  rw [hstored, if_neg (fun hand => hfull hand.1)]
  exact ⟨cut_eq_self.mpr h.1, happend, decide_eq_false hfull⟩

/-- Only a line that fits is received whole and inside of the array. -/
lemma fits_of_receiveUpto {available taken : Text}
    (htaken : available = taken ++ (receiveUpto newline available).rest)
    (hlength : (receiveUpto newline available).result.length = taken.length)
    (hinside : (receiveUpto newline available).overrun = false) : LineFits available := by
  have happend := fillBuffer_append newline bufferLength available
  have hfst := fillBuffer_fst newline bufferLength available
  unfold receiveUpto receiveUptoLoop at htaken hlength hinside
  dsimp only at htaken hlength hinside
  split at hinside
  · cases hinside
  next hstop =>
    have hfull : (fillBuffer newline bufferLength available).1.length ≠ bufferLength :=
      of_decide_eq_false hinside
    rw [if_neg hstop] at htaken hlength
    dsimp only at htaken hlength
    have hshort : (upto newline available).length < bufferLength := by
      rw [hfst, List.length_take] at hfull
      omega
    rw [List.take_of_length_le (Nat.le_of_lt hshort)] at hfst
    have heq : taken = (fillBuffer newline bufferLength available).1 :=
      List.append_cancel_right (htaken.symm.trans happend.symm)
    rw [heq, hfst] at hlength
    exact ⟨(cut_length_eq_iff _).mp hlength, hshort⟩

/-- The blocks take all that is there. -/
lemma readBlocks_eq {fuel : Nat} {buffer available : Text} (h : available.length < fuel) :
    readBlocks fuel buffer available = (buffer ++ available, []) := by
  induction fuel generalizing buffer available with
  | zero => omega
  | succ fuel ih =>
    unfold readBlocks
    dsimp only
    split
    next hfull =>
      have hpositive : 0 < bufferLength := by decide
      rw [List.length_take] at hfull
      rw [ih (by rw [List.length_drop]; omega), List.append_assoc, List.take_append_drop]
    next hfull =>
      rw [List.length_take] at hfull
      rw [List.take_of_length_le (by omega), List.drop_eq_nil_of_le (by omega)]

/-! ### Requests -/

lemma getLineFromBuffer_append (buffer : Text) :
    (Process.getLineFromBuffer buffer).1 ++ (Process.getLineFromBuffer buffer).2 = buffer := by
  unfold Process.getLineFromBuffer
  split
  · exact List.take_append_drop _ _
  · rfl

/-- A line is returned without its newline, and counted with it. -/
lemma dataOf_line (buffer : Text) :
    dataOf .read_line (processOutput (Process.getLineFromBuffer buffer).1) =
      (Process.getLineFromBuffer buffer).1 := by
  unfold Process.getLineFromBuffer
  split
  next hmem =>
    have hpos : buffer.idxOf newline < buffer.length := List.idxOf_lt_length_of_mem hmem
    have htake : buffer.take (buffer.idxOf newline + 1) =
        buffer.take (buffer.idxOf newline) ++ [newline] := by
      rw [List.take_add_one, List.getElem?_eq_getElem hpos, List.getElem_idxOf hpos]
      rfl
    dsimp only
    rw [htake]
    unfold processOutput
    rw [if_neg (by simp), List.dropLast_concat]
    rfl
  · rfl

/-- What a request takes from the stream and what of it gets into the data returned and the buffer. -/
structure Moves (p : Process) (q : Request) (piece got : Text) : Prop where
  stream : p.available = piece ++ (request p q).1.available
  data : dataOf q (request p q).2 ++ (request p q).1.stdout_buffer = p.stdout_buffer ++ got
  length : got.length ≤ piece.length

lemma moves_line {p : Process} {q : Request} (hq : (request p q).1.available =
      p.bufferNewStdoutLines.available)
    (hgot : dataOf q (request p q).2 ++ (request p q).1.stdout_buffer =
      p.bufferNewStdoutLines.stdout_buffer) :
    ∃ piece, Moves p q piece (receiveUpto newline p.available).result := by
  obtain ⟨piece, hpiece, hlength⟩ :=
    receiveUptoLoop_taken newline (p.available.length + 1) p.available
  exact ⟨piece, by rw [hq]; exact hpiece, hgot, hlength⟩

lemma readStdoutToBuffer_eq (p : Process) :
    p.readStdoutToBuffer = ⟨[], p.stdout_buffer ++ p.available, p.overrun⟩ := by
  unfold Process.readStdoutToBuffer
  rw [readBlocks_eq (Nat.lt_succ_self _)]

lemma read_line_data (p : Process) :
    dataOf .read_line (request p .read_line).2 ++ (request p .read_line).1.stdout_buffer =
      p.bufferNewStdoutLines.stdout_buffer := by
  change dataOf .read_line
      (processOutput (Process.getLineFromBuffer p.bufferNewStdoutLines.stdout_buffer).1) ++
    (Process.getLineFromBuffer p.bufferNewStdoutLines.stdout_buffer).2 = _
  rw [dataOf_line, getLineFromBuffer_append]

lemma moves_block {p : Process} {q : Request} (hq : (request p q).1.available = [])
    (hgot : dataOf q (request p q).2 ++ (request p q).1.stdout_buffer =
      p.stdout_buffer ++ p.available) : Moves p q p.available p.available :=
  ⟨by rw [hq, List.append_nil], hgot, Nat.le_refl _⟩

lemma read_data (p : Process) :
    dataOf .read (request p .read).2 ++ (request p .read).1.stdout_buffer =
      p.stdout_buffer ++ p.available := by
  have hread : p.read.2 = p.stdout_buffer ++ p.available := by
    change p.readStdoutToBuffer.stdout_buffer = _
    rw [readStdoutToBuffer_eq]
  change dataOf .read (if p.read.2.isEmpty then .void else .string p.read.2) ++ [] = _
  rw [hread, List.append_nil]
  split
  next hempty =>
    rw [List.isEmpty_iff.mp hempty]
    rfl
  · rfl

/-! ### Steps and runs -/

/-- What every run keeps: the stream is cut into what was taken and what is available, and no data
comes from nowhere. -/
structure Accounted (r : Run) : Prop where
  stream : r.taken ++ r.process.available = r.written
  length : (r.returned ++ r.process.stdout_buffer).length ≤ r.taken.length

variable {r : Run}

lemma step_taken {q : Request} {piece got : Text} (h : Moves r.process q piece got) :
    (r.step (.request q)).taken = r.taken ++ piece := by
  change r.taken ++ r.process.available.take
    (r.process.available.length - (request r.process q).1.available.length) = _
  rw [h.stream, List.length_append, Nat.add_sub_cancel, List.take_left]

lemma step_data {q : Request} {piece got : Text} (h : Moves r.process q piece got) :
    (r.step (.request q)).returned ++ (r.step (.request q)).process.stdout_buffer =
      r.returned ++ r.process.stdout_buffer ++ got := by
  change (r.returned ++ dataOf q (request r.process q).2) ++ (request r.process q).1.stdout_buffer = _
  rw [List.append_assoc, h.data, List.append_assoc]

lemma accounted_request {q : Request} {piece got : Text} (hr : Accounted r)
    (h : Moves r.process q piece got) : Accounted (r.step (.request q)) where
  stream := by
    rw [step_taken h, List.append_assoc]
    change r.taken ++ (piece ++ (request r.process q).1.available) = r.written
    rw [← h.stream]
    exact hr.stream
  length := by
    have hle := hr.length
    have hle' := h.length
    rw [step_data h, step_taken h]
    simp only [List.length_append] at hle ⊢
    omega

/-- What was kept stays so exactly when the data of a request is all that it took. -/
lemma data_request {q : Request} {piece got : Text} (hr : Accounted r)
    (h : Moves r.process q piece got) :
    (r.step (.request q)).returned ++ (r.step (.request q)).process.stdout_buffer =
        (r.step (.request q)).taken ↔
      r.returned ++ r.process.stdout_buffer = r.taken ∧ got = piece := by
  rw [step_data h, step_taken h]
  constructor
  · intro heq
    have hlength := congrArg List.length heq
    have hle := hr.length
    have hle' := h.length
    refine List.append_inj heq ?_
    simp only [List.length_append] at hlength hle ⊢
    omega
  · rintro ⟨heq, rfl⟩
    rw [heq]

lemma kept_iff (hr : Accounted r) : Kept r ↔
    r.returned ++ r.process.stdout_buffer = r.taken ∧ r.process.overrun = false :=
  ⟨fun h => ⟨h.data, h.inside⟩, fun h => ⟨h.1, ⟨_, hr.stream⟩, h.2⟩⟩

/-- A request that reads a line. -/
lemma kept_line {q : Request} (hr : Accounted r)
    (hq : (request r.process q).1.available = r.process.bufferNewStdoutLines.available)
    (hgot : dataOf q (request r.process q).2 ++ (request r.process q).1.stdout_buffer =
      r.process.bufferNewStdoutLines.stdout_buffer)
    (hoverrun : (request r.process q).1.overrun = r.process.bufferNewStdoutLines.overrun) :
    Accounted (r.step (.request q)) ∧
      (Kept (r.step (.request q)) ↔ Kept r ∧ LineFits r.process.available) := by
  obtain ⟨piece, hmoves⟩ := moves_line hq hgot
  have haccounted := accounted_request hr hmoves
  have hpiece : r.process.available = piece ++ (receiveUpto newline r.process.available).rest := by
    have hstream := hmoves.stream
    rw [hq] at hstream
    exact hstream
  have hinside : (r.step (.request q)).process.overrun =
      (r.process.overrun || (receiveUpto newline r.process.available).overrun) := hoverrun
  refine ⟨haccounted, ?_⟩
  rw [kept_iff haccounted, kept_iff hr, data_request hr hmoves, hinside, Bool.or_eq_false_iff]
  constructor
  · rintro ⟨⟨hdata, hgot⟩, hold, hnew⟩
    exact ⟨⟨hdata, hold⟩, fits_of_receiveUpto hpiece (congrArg List.length hgot) hnew⟩
  · rintro ⟨⟨hdata, hold⟩, hfits⟩
    obtain ⟨hresult, happend, hnew⟩ := receiveUpto_of_fits hfits
    refine ⟨⟨hdata, ?_⟩, hold, hnew⟩
    rw [hresult]
    exact List.append_cancel_right (happend.trans hpiece)

/-- A request that reads blocks. -/
lemma kept_block {q : Request} (hr : Accounted r) (hq : (request r.process q).1.available = [])
    (hgot : dataOf q (request r.process q).2 ++ (request r.process q).1.stdout_buffer =
      r.process.stdout_buffer ++ r.process.available)
    (hoverrun : (request r.process q).1.overrun = r.process.overrun) :
    Accounted (r.step (.request q)) ∧ (Kept (r.step (.request q)) ↔ Kept r) := by
  have hmoves := moves_block hq hgot
  have haccounted := accounted_request hr hmoves
  have hinside : (r.step (.request q)).process.overrun = r.process.overrun := hoverrun
  refine ⟨haccounted, ?_⟩
  rw [kept_iff haccounted, kept_iff hr, data_request hr hmoves, hinside]
  simp

lemma kept_write (hr : Accounted r) (chunk : Text) :
    Accounted (r.step (.write chunk)) ∧ (Kept (r.step (.write chunk)) ↔ Kept r) := by
  have haccounted : Accounted (r.step (.write chunk)) := by
    refine ⟨?_, hr.length⟩
    change r.taken ++ (r.process.available ++ chunk) = r.written ++ chunk
    rw [← List.append_assoc, hr.stream]
  refine ⟨haccounted, ?_⟩
  rw [kept_iff haccounted, kept_iff hr]
  rfl

lemma kept_step (hr : Accounted r) (s : Step) :
    Accounted (r.step s) ∧ (Kept (r.step s) ↔ Kept r ∧ StepFits r s) := by
  cases s with
  | write chunk =>
    obtain ⟨haccounted, hkept⟩ := kept_write hr chunk
    exact ⟨haccounted, hkept.trans (and_iff_left trivial).symm⟩
  | request q =>
    cases q with
    | read_line => exact kept_line hr rfl (read_line_data r.process) rfl
    | buffer_empty => exact kept_line hr rfl rfl rfl
    | read =>
      obtain ⟨haccounted, hkept⟩ := kept_block hr (q := .read)
        (congrArg Process.available (readStdoutToBuffer_eq r.process)) (read_data r.process) rfl
      exact ⟨haccounted, hkept.trans (and_iff_left trivial).symm⟩
    | running isRunning =>
      obtain ⟨haccounted, hkept⟩ := kept_block hr (q := .running isRunning)
        (congrArg Process.available (readStdoutToBuffer_eq r.process))
        (congrArg Process.stdout_buffer (readStdoutToBuffer_eq r.process)) rfl
      exact ⟨haccounted, hkept.trans (and_iff_left trivial).symm⟩

lemma kept_steps (hr : Accounted r) (l : List Step) : Kept (r.steps l) ↔ Kept r ∧ AllFit r l := by
  induction l generalizing r with
  | nil => exact (and_iff_left trivial).symm
  | cons s l ih =>
    obtain ⟨haccounted, hkept⟩ := kept_step hr s
    change Kept ((r.step s).steps l) ↔ _
    rw [ih haccounted, hkept, and_assoc]
    rfl

/-- Over every interleaving of written chunks and requests, no data is lost, duplicated or stored
outside of the array, exactly when every line that is read fits. -/
theorem output_kept_iff (l : List Step) : Kept (Run.start.steps l) ↔ AllFit Run.start l := by
  have hstart : Accounted Run.start := ⟨rfl, Nat.le_refl _⟩
  rw [kept_steps hstart]
  exact and_iff_right ⟨rfl, List.prefix_rfl, rfl⟩

/-- The NUL in the output `"a\x00b\n"` ends the line for the reader, and the rest is lost. -/
theorem output_lost :
    (Run.start.steps [.write [97, 0, 98, 10], .request .read_line]).returned ++
        (Run.start.steps [.write [97, 0, 98, 10], .request .read_line]).process.stdout_buffer = [97] ∧
      (Run.start.steps [.write [97, 0, 98, 10], .request .read_line]).taken = [97, 0, 98, 10] ∧
      ¬ Kept (Run.start.steps [.write [97, 0, 98, 10], .request .read_line]) := by
  refine ⟨by decide, by decide, fun h => ?_⟩
  have hdata := h.data
  revert hdata
  decide

end YastCore.Process
