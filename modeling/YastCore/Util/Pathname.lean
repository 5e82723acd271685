import YastCore.Lib.CharString
import YastCore.Value.Basic

/-!
# Path names

`Pathname` normalises every string it is given: a prefix as `c:` is set apart, the rest is split at
its slashes and each word pushed on a stack, and the stack is printed. All other operations print a
path, cut or join the text and normalise again, so their laws are laws of the stack.
-/

namespace YastCore.Util

open CharString

/-! ### The stack -/

def dot : Text := [46]

def dotdot : Text := [46, 46]

/-- `DirStack::Push`, with the top of the stack in front. -/
def push (stack : List Text) (n : Text) : List Text :=
  match stack with
  | [] => [n]
  | top :: below =>
    if n = [] ∨ n = dot then top :: below
    else if n = dotdot then
      if top = [] then top :: below
      else if top ≠ dot ∧ top ≠ dotdot then below
      else n :: top :: below
    else n :: top :: below

/-- What the loop of `DirStack::str` collects, from the bottom up. -/
def body (stack : List Text) : Text :=
  match stack.reverse with
  | [] => []
  | bot :: dirs => dirs.foldl (fun ret name => ret ++ 47 :: name) bot

def str (stack : List Text) : Text :=
  if stack = [] then [] else if body stack = [] then [47] else body stack

/-! ### Path names -/

structure Pathname where
  prfx_i : Nat
  name_t : Text
deriving DecidableEq

def isLetter (c : UInt8) : Bool := (97 ≤ c && c ≤ 122) || (65 ≤ c && c ≤ 90)

/-- The test for a prefix as `c:`. -/
def hasPrefix : Text → Bool
  | l :: c :: _ => c == 58 && isLetter l
  | [_] => false
  | [] => false

def isSlash (c : UInt8) : Bool := c == 47 || c == 92

/-- What is done with the buffer at the end of a word. -/
def pushWord (stack : List Text) (buf : Text) : List Text := if buf = [] then stack else push stack buf

/-- The loop over the characters, which ends at a NUL; `buf` is the word so far. -/
def walk (buf : Text) : Text → List Text → List Text
  | [], stack => pushWord stack buf
  | c :: rest, stack =>
    if c = 0 then pushWord stack buf
    else if isSlash c then walk [] rest (pushWord stack buf)
    else walk (buf ++ [c]) rest stack

/-- The stack of what stands behind the prefix. -/
def stackOf : Text → List Text
  | [] => walk [] [] (push [] dot)
  | c :: rest => if isSlash c then walk [] rest (push [] []) else walk [] (c :: rest) (push [] dot)

def prefixLength (name : Text) : Nat := if hasPrefix name then 2 else 0

/-- `Pathname::_assign` -/
def assign (name : Text) : Pathname :=
  if name = [] then ⟨0, []⟩
  else ⟨prefixLength name, name.take (prefixLength name) ++ str (stackOf (name.drop (prefixLength name)))⟩

namespace Pathname

def asString (p : Pathname) : Text := p.name_t

def dirname (p : Pathname) : Pathname :=
  if p.name_t = [] then assign []
  else
    match findLast (· == 47) p.name_t with
    | none => { p with name_t := p.name_t.take p.prfx_i ++ dot }
    | some idx =>
      if idx = p.prfx_i then { p with name_t := p.name_t.take p.prfx_i ++ [47] }
      else { p with name_t := p.name_t.take idx }

def basename (p : Pathname) : Text :=
  if p.name_t = [] then []
  else
    match findLast (· == 47) (p.name_t.drop p.prfx_i) with
    | none => p.name_t.drop p.prfx_i
    | some idx => (p.name_t.drop p.prfx_i).drop (idx + 1)

def cat (l r : Pathname) : Pathname :=
  if r.name_t = [] then l
  else if l.name_t = [] then r
  else assign (l.asString ++ 47 :: r.asString.drop r.prfx_i)

def extend (l : Pathname) (r : Text) : Pathname := assign (l.asString ++ r)

def absolute (p : Pathname) : Bool := !p.name_t.isEmpty && p.name_t.getD p.prfx_i 0 == 47

def relative (p : Pathname) : Bool := !p.name_t.isEmpty && p.name_t.getD p.prfx_i 0 != 47

def absolutename (p : Pathname) : Pathname := if p.relative then cat (assign [47]) p else p

def relativename (p : Pathname) : Pathname := if p.absolute then cat (assign dot) p else p

end Pathname

/-- The path names there are: what the constructors and the operations give. -/
inductive Built : Pathname → Prop
  | default : Built ⟨0, []⟩
  | assign (name : Text) : Built (assign name)
  | dirname {p : Pathname} (hp : Built p) : Built p.dirname
  | cat {l r : Pathname} (hl : Built l) (hr : Built r) : Built (l.cat r)
  | extend {l : Pathname} (hl : Built l) (r : Text) : Built (l.extend r)
  | absolutename {p : Pathname} (hp : Built p) : Built p.absolutename
  | relativename {p : Pathname} (hp : Built p) : Built p.relativename

example : (assign [47, 97, 47, 46, 46, 47, 98]).asString = [47, 98] := by decide

/-! ### Stacks that are normal -/

/-- A word of a path. -/
def IsWord (n : Text) : Prop := n ≠ [] ∧ ∀ c ∈ n, c ≠ 0 ∧ isSlash c = false

/-- At the bottom is the root or the working directory, and `..` stands only over the latter and
itself. -/
inductive Wf : List Text → Prop
  | root : Wf [[]]
  | here : Wf [dot]
  | name {n : Text} {s : List Text} (hword : IsWord n) (hdot : n ≠ dot) (hdotdot : n ≠ dotdot) (hs : Wf s) :
      Wf (n :: s)
  | up {top : Text} {s : List Text} (htop : top = dot ∨ top = dotdot) (hs : Wf (top :: s)) :
      Wf (dotdot :: top :: s)

lemma isWord_of_all {n : Text} (hne : n ≠ []) (hall : (n.all fun c => c != 0 && !isSlash c) = true) : IsWord n := by
  refine ⟨hne, fun c hc => ?_⟩
  have hletter := List.all_eq_true.mp hall c hc
  simpa using hletter

lemma isWord_dot : IsWord dot := isWord_of_all (List.cons_ne_nil _ _) rfl

lemma isWord_dotdot : IsWord dotdot := isWord_of_all (List.cons_ne_nil _ _) rfl

lemma Wf.ne_nil {s : List Text} (h : Wf s) : s ≠ [] := by
  cases h <;> simp

/-- Pushing what is on a normal stack anyway gives the stack. -/
lemma push_of_wf {n : Text} {s : List Text} (hne : s ≠ []) (h : Wf (n :: s)) :
    IsWord n ∧ Wf s ∧ push s n = n :: s := by
  cases h with
  | root => exact absurd rfl hne
  | here => exact absurd rfl hne
  | name hword hdot hdotdot hs =>
    obtain ⟨top, below, rfl⟩ := List.exists_cons_of_ne_nil hne
    exact ⟨hword, hs, by simp [push, hword.1, hdot, hdotdot]⟩
  | @up top s htop hs =>
    refine ⟨isWord_dotdot, hs, ?_⟩
    rcases htop with rfl | rfl
    · simp [push, dot, dotdot]
    · simp [push, dot, dotdot]

lemma push_dot {s : List Text} (hne : s ≠ []) : push s dot = s := by
  obtain ⟨top, below, rfl⟩ := List.exists_cons_of_ne_nil hne
  simp [push]

lemma wf_push {n : Text} {s : List Text} (hn : IsWord n) (h : Wf s) : Wf (push s n) := by
  obtain ⟨top, below, rfl⟩ := List.exists_cons_of_ne_nil h.ne_nil
  by_cases hdot : n = dot
  · rw [hdot, push_dot (by simp)]
    exact h
  · by_cases hdotdot : n = dotdot
    · subst hdotdot
      by_cases htop : top = []
      · simpa [push, isWord_dotdot.1, hdot, htop] using htop ▸ h
      · by_cases hup : top = dot ∨ top = dotdot
        · have hpush : push (top :: below) dotdot = dotdot :: top :: below := by
            rcases hup with rfl | rfl
            · simp [push, dot, dotdot]
            · simp [push, dot, dotdot]
          rw [hpush]
          exact .up hup h
        · obtain ⟨htopdot, htopdotdot⟩ := not_or.mp hup
          have hpush : push (top :: below) dotdot = below := by
            simp [push, isWord_dotdot.1, hdot, htop, htopdot, htopdotdot]
          rw [hpush]
          cases h with
          | root => exact absurd rfl htop
          | here => exact absurd rfl htopdot
          | name _ _ _ hs => exact hs
          | up => exact absurd rfl htopdotdot
    · have hpush : push (top :: below) n = n :: top :: below := by simp [push, hn.1, hdot, hdotdot]
      rw [hpush]
      exact .name hn hdot hdotdot h

lemma wf_pushWord {buf : Text} {s : List Text} (hbuf : ∀ c ∈ buf, c ≠ 0 ∧ isSlash c = false) (h : Wf s) :
    Wf (pushWord s buf) := by
  unfold pushWord
  split
  · exact h
  · next hne => exact wf_push ⟨hne, hbuf⟩ h

lemma wf_walk {buf rest : Text} {s : List Text} (hbuf : ∀ c ∈ buf, c ≠ 0 ∧ isSlash c = false) (h : Wf s) :
    Wf (walk buf rest s) := by
  induction rest generalizing buf s with
  | nil => exact wf_pushWord hbuf h
  | cons c rest ih =>
    rw [walk]
    split
    · exact wf_pushWord hbuf h
    · next hc =>
      split
      · exact ih (by simp) (wf_pushWord hbuf h)
      · next hslash =>
        refine ih (fun x hx => ?_) h
        rcases List.mem_append.mp hx with hx | hx
        · exact hbuf x hx
        · obtain rfl := List.mem_singleton.mp hx
          exact ⟨hc, by simpa using hslash⟩

lemma wf_stackOf (rest : Text) : Wf (stackOf rest) := by
  cases rest with
  | nil => exact .here
  | cons c rest =>
    rw [stackOf]
    split
    · exact wf_walk (by simp) .root
    · exact wf_walk (by simp) .here

/-! ### Printing a stack and reading it again -/

lemma body_cons {s : List Text} (hne : s ≠ []) (n : Text) : body (n :: s) = body s ++ 47 :: n := by
  obtain ⟨bot, dirs, hrev⟩ : ∃ bot dirs, s.reverse = bot :: dirs :=
    List.exists_cons_of_ne_nil (by simpa using hne)
  simp [body, hrev]

lemma str_cons {s : List Text} (hne : s ≠ []) (n : Text) : str (n :: s) = body s ++ 47 :: n := by
  simp [str, body_cons hne]

lemma walk_word {w : Text} (hw : ∀ c ∈ w, c ≠ 0 ∧ isSlash c = false) (buf rest : Text) (s : List Text) :
    walk buf (w ++ rest) s = walk (buf ++ w) rest s := by
  induction w generalizing buf with
  | nil => simp
  | cons c w ih =>
    obtain ⟨hc, hslash⟩ := hw c List.mem_cons_self
    rw [List.cons_append, walk, if_neg hc, if_neg (by simp [hslash]), ih fun x hx => hw x (List.mem_cons_of_mem c hx)]
    simp

lemma pushWord_nil (s : List Text) : pushWord s [] = s := if_pos rfl

lemma pushWord_word {n : Text} (hne : n ≠ []) (s : List Text) : pushWord s n = push s n := if_neg hne

lemma walk_slash (buf rest : Text) (s : List Text) : walk buf (47 :: rest) s = walk [] rest (pushWord s buf) := by
  rw [walk, if_neg (by decide), if_pos (by decide)]

/-- What may stand behind a word. -/
def AtSlash (rest : Text) : Prop := ∀ c ∈ rest.head?, c = 47

lemma atSlash_nil : AtSlash [] := by simp [AtSlash]

lemma walk_atSlash {rest : Text} (h : AtSlash rest) (buf : Text) (s : List Text) :
    walk buf rest s = walk [] rest (pushWord s buf) := by
  cases rest with
  | nil => rw [walk, walk, pushWord_nil]
  | cons c rest =>
    obtain rfl : c = 47 := h c rfl
    rw [walk_slash, walk_slash, pushWord_nil]

/-- The part of a printed stack above its bottom is read as the stack. -/
lemma exists_tail {s : List Text} (h : Wf s) :
    ∃ bot tail, (bot = [] ∨ bot = dot) ∧ body s = bot ++ tail ∧ AtSlash tail ∧ (tail = [] → s = [bot]) ∧
      ∀ rest, AtSlash rest → walk [] (tail ++ rest) [bot] = walk [] rest s := by
  have hmore {n : Text} {s : List Text} (hs : Wf s) (hns : Wf (n :: s)) (ih : ∃ bot tail, (bot = [] ∨ bot = dot) ∧
      body s = bot ++ tail ∧ AtSlash tail ∧ (tail = [] → s = [bot]) ∧
        ∀ rest, AtSlash rest → walk [] (tail ++ rest) [bot] = walk [] rest s) :
      ∃ bot tail, (bot = [] ∨ bot = dot) ∧ body (n :: s) = bot ++ tail ∧ AtSlash tail ∧ (tail = [] → n :: s = [bot]) ∧
        ∀ rest, AtSlash rest → walk [] (tail ++ rest) [bot] = walk [] rest (n :: s) := by
    obtain ⟨bot, tail, hbot, hbody, hslash, -, hwalk⟩ := ih
    obtain ⟨hword, -, hpush⟩ := push_of_wf hs.ne_nil hns
    refine ⟨bot, tail ++ 47 :: n, hbot, by rw [body_cons hs.ne_nil, hbody, List.append_assoc], ?_, by simp, ?_⟩
    · cases tail with
      | nil => simp [AtSlash]
      | cons c tail => simpa [AtSlash] using hslash
    · intro rest hrest
      rw [List.append_assoc, hwalk _ (by simp [AtSlash]), List.cons_append, walk_slash, pushWord_nil,
        walk_word hword.2, List.nil_append, walk_atSlash hrest, pushWord_word hword.1, hpush]
  induction h with
  | root => exact ⟨[], [], .inl rfl, rfl, by simp [AtSlash], fun _ => rfl, fun _ _ => rfl⟩
  | here => exact ⟨dot, [], .inr rfl, rfl, by simp [AtSlash], fun _ => rfl, fun _ _ => rfl⟩
  | name hword hdot hdotdot hs ih => exact hmore hs (.name hword hdot hdotdot hs) ih
  | up htop hs ih => exact hmore hs (.up htop hs) ih

lemma AtSlash.append {a b : Text} (ha : AtSlash a) (hb : AtSlash b) : AtSlash (a ++ b) := by
  cases a with
  | nil => exact hb
  | cons c a => simpa [AtSlash] using ha

lemma str_of_body_ne_nil {s : List Text} (hs : s ≠ []) (h : body s ≠ []) : str s = body s := by
  rw [str, if_neg hs, if_neg h]

lemma stackOf_str {s : List Text} (h : Wf s) {rest : Text} (hrest : AtSlash rest) :
    stackOf (str s ++ rest) = walk [] rest s := by
  obtain ⟨bot, tail, hbot, hbody, hslash, hend, hwalk⟩ := exists_tail h
  rw [← hwalk rest hrest]
  rcases hbot with rfl | rfl
  · cases tail with
    | nil =>
      obtain rfl := hend rfl
      rfl
    | cons c tail =>
      obtain rfl : c = 47 := hslash c rfl
      rw [str_of_body_ne_nil h.ne_nil (by simp [hbody]), hbody, List.nil_append, List.cons_append, walk_slash,
        pushWord_nil]
      rfl
  · have hdot := isWord_dot.2
    rw [str_of_body_ne_nil h.ne_nil (by simp [hbody, dot]), hbody, List.append_assoc]
    have hstart : stackOf (dot ++ (tail ++ rest)) = walk [] (dot ++ (tail ++ rest)) [dot] := rfl
    rw [hstart, walk_word hdot, List.nil_append, walk_atSlash (hslash.append hrest)]
    rfl

lemma str_head {s : List Text} (h : Wf s) : ∃ c t, str s = c :: t ∧ (c = 46 ∨ c = 47) := by
  obtain ⟨bot, tail, hbot, hbody, hslash, hend, -⟩ := exists_tail h
  rcases hbot with rfl | rfl
  · cases tail with
    | nil =>
      obtain rfl := hend rfl
      exact ⟨47, [], rfl, .inr rfl⟩
    | cons c tail =>
      obtain rfl : c = 47 := hslash c rfl
      exact ⟨47, tail, by rw [str_of_body_ne_nil h.ne_nil (by simp [hbody]), hbody, List.nil_append], .inr rfl⟩
  · exact ⟨46, tail, by rw [str_of_body_ne_nil h.ne_nil (by simp [hbody, dot]), hbody]; rfl, .inl rfl⟩

/-! ### Normal path names -/

def IsPrefix (t : Text) : Prop := t = [] ∨ ∃ l, isLetter l = true ∧ t = [l, 58]

def render (t : Text) (s : List Text) : Pathname := ⟨t.length, t ++ str s⟩

def Normal (p : Pathname) : Prop := p = ⟨0, []⟩ ∨ ∃ t s, IsPrefix t ∧ Wf s ∧ p = render t s

lemma hasPrefix_of_head {c : UInt8} (hc : c = 46 ∨ c = 47) (t : Text) : hasPrefix (c :: t) = false := by
  cases t with
  | nil => rfl
  | cons d t =>
    have hletter : isLetter c = false := by rcases hc with rfl | rfl <;> decide
    simp [hasPrefix, hletter]

lemma exists_prefix (name : Text) :
    ∃ t rest, IsPrefix t ∧ name = t ++ rest ∧ prefixLength name = t.length ∧ (hasPrefix name = false → t = []) := by
  by_cases h : hasPrefix name = true
  · unfold hasPrefix at h
    split at h
    · next l c rest =>
      obtain ⟨hc, hl⟩ : c = 58 ∧ isLetter l = true := by simpa using h
      subst hc
      exact ⟨[l, 58], rest, .inr ⟨l, hl, rfl⟩, rfl, by simp [prefixLength, hasPrefix, hl], by simp [hasPrefix, hl]⟩
    · exact absurd h Bool.false_ne_true
    · exact absurd h Bool.false_ne_true
  · exact ⟨[], name, .inl rfl, rfl, by simp [prefixLength, h], fun _ => rfl⟩

lemma assign_eq_render {name t rest : Text} (hne : name ≠ []) (hname : name = t ++ rest)
    (hlength : prefixLength name = t.length) : assign name = render t (stackOf rest) := by
  rw [assign, if_neg hne, hlength, hname, List.take_left, List.drop_left]
  rfl

lemma normal_assign (name : Text) : Normal (assign name) := by
  by_cases hne : name = []
  · exact .inl (by rw [assign, if_pos hne])
  · obtain ⟨t, rest, ht, hname, hlength, -⟩ := exists_prefix name
    exact .inr ⟨t, stackOf rest, ht, wf_stackOf rest, assign_eq_render hne hname hlength⟩

/-- A path name with more behind it. -/
lemma assign_render {t : Text} (ht : IsPrefix t) {s : List Text} (hs : Wf s) {rest : Text} (hrest : AtSlash rest) :
    assign ((render t s).asString ++ rest) = render t (walk [] rest s) := by
  obtain ⟨c, r, hstr, hc⟩ := str_head hs
  have hlength : prefixLength (t ++ (str s ++ rest)) = t.length := by
    rcases ht with rfl | ⟨l, hl, rfl⟩
    · simp [prefixLength, hstr, hasPrefix_of_head hc]
    · simp [prefixLength, hasPrefix, hl]
  have hassoc : (render t s).asString ++ rest = t ++ (str s ++ rest) := List.append_assoc _ _ _
  rw [hassoc, assign_eq_render (by simp [hstr]) rfl hlength, stackOf_str hs hrest]

lemma Normal.assign_asString {p : Pathname} (h : Normal p) : assign p.asString = p := by
  rcases h with rfl | ⟨t, s, ht, hs, rfl⟩
  · rfl
  · have hassign := assign_render ht hs atSlash_nil
    rwa [List.append_nil] at hassign

/-- A normal path name is empty, has no word or has a last word. -/
lemma Normal.shape {p : Pathname} (h : Normal p) :
    p = ⟨0, []⟩ ∨ (∃ t bot, IsPrefix t ∧ (bot = [] ∨ bot = dot) ∧ p = render t [bot]) ∨
      ∃ t n s, IsPrefix t ∧ IsWord n ∧ Wf s ∧ Wf (n :: s) ∧ p = render t (n :: s) := by
  rcases h with rfl | ⟨t, s, ht, hs, rfl⟩
  · exact .inl rfl
  · cases hs with
    | root => exact .inr (.inl ⟨t, [], ht, .inl rfl, rfl⟩)
    | here => exact .inr (.inl ⟨t, dot, ht, .inr rfl, rfl⟩)
    | name hword hdot hdotdot hs =>
      exact .inr (.inr ⟨t, _, _, ht, hword, hs, .name hword hdot hdotdot hs, rfl⟩)
    | up htop hs => exact .inr (.inr ⟨t, _, _, ht, isWord_dotdot, hs, .up htop hs, rfl⟩)

/-! ### The last word -/

lemma not_mem_of_isLetter {l : UInt8} (hl : isLetter l = true) {rest : Text} (hrest : 47 ∉ rest) :
    47 ∉ l :: 58 :: rest := by
  have hl47 : 47 ≠ l := by
    rintro rfl
    exact absurd hl (by decide)
  simp [hl47, hrest]

/-- The working directory below a prefix is not divided by a slash. -/
lemma not_mem_prefix_dot {t : Text} (ht : IsPrefix t) : 47 ∉ t ++ dot := by
  have hdot : 47 ∉ dot := by decide
  rcases ht with rfl | ⟨l, hl, rfl⟩
  · exact hdot
  · exact not_mem_of_isLetter hl hdot

section LastWord

variable {t n : Text} {s : List Text}

lemma dirname_bottom (ht : IsPrefix t) {bot : Text} (hbot : bot = [] ∨ bot = dot) :
    (render t [bot]).dirname = render t [bot] ∧ (render t [bot]).basename = bot := by
  have hne : (render t [bot]).name_t ≠ [] := by rcases hbot with rfl | rfl <;> simp [render, str, body, dot]
  rcases hbot with rfl | rfl
  · have hname : (render t [[]]).name_t = t ++ [47] := rfl
    have hlast : findLast (· == 47) (t ++ [47]) = some t.length := findLast_append_cons t rfl (by simp)
    refine ⟨?_, ?_⟩
    · rw [Pathname.dirname, if_neg hne, hname, hlast]
      simp [render, str, body]
    · have hdrop : (t ++ [47]).drop (render t [[]]).prfx_i = [47] := by simp [render]
      rw [Pathname.basename, if_neg hne, hname, hdrop]
      rfl
  · have hname : (render t [dot]).name_t = t ++ dot := rfl
    have hlast : findLast (· == 47) (t ++ dot) = none := findLast_eq_none fun x hx => by
      have hx47 : x ≠ 47 := ne_of_mem_of_not_mem hx (not_mem_prefix_dot ht)
      simpa using hx47
    refine ⟨?_, ?_⟩
    · rw [Pathname.dirname, if_neg hne, hname, hlast]
      simp [render, str, body, dot]
    · have hdrop : (t ++ dot).drop (render t [dot]).prfx_i = dot := by simp [render]
      rw [Pathname.basename, if_neg hne, hname, hdrop]
      rfl

lemma not_slash_of_isWord (hn : IsWord n) : ∀ x ∈ n, (x == 47) = false := by
  intro x hx
  have hslash := (hn.2 x hx).2
  simp only [isSlash, Bool.or_eq_false_iff] at hslash
  exact hslash.1

/-- The last word is the top of the stack. -/
lemma dirname_cons (hn : IsWord n) (hs : s ≠ []) :
    (render t (n :: s)).dirname = render t s ∧ (render t (n :: s)).basename = n := by
  have hname : (render t (n :: s)).name_t = (t ++ body s) ++ 47 :: n := by simp [render, str_cons hs]
  have hne : (render t (n :: s)).name_t ≠ [] := by simp [hname]
  have hslash := not_slash_of_isWord hn
  refine ⟨?_, ?_⟩
  · rw [Pathname.dirname, if_neg hne, hname, findLast_append_cons _ rfl hslash]
    by_cases hbody : body s = []
    · simp [render, str, hs, hbody]
    · have hidx : (t ++ body s).length ≠ (render t (n :: s)).prfx_i := by simpa [render] using hbody
      simp only [if_neg hidx, List.take_left]
      simp [render, str, hs, hbody]
  · have hdrop : ((t ++ body s) ++ 47 :: n).drop (render t (n :: s)).prfx_i = body s ++ 47 :: n := by simp [render]
    rw [Pathname.basename, if_neg hne, hname, hdrop, findLast_append_cons _ rfl hslash]
    simp

end LastWord

/-! ### Putting a word back -/

section Cat

variable {t n : Text} {s : List Text}

lemma walk_nil_word {w : Text} (hw : ∀ c ∈ w, c ≠ 0 ∧ isSlash c = false) (s : List Text) :
    walk [] w s = pushWord s w := by
  have hwalk := walk_word hw [] [] s
  rw [List.append_nil, List.nil_append] at hwalk
  rw [hwalk, walk]

lemma stackOf_word {w : Text} (hw : ∀ c ∈ w, c ≠ 0 ∧ isSlash c = false) : stackOf w = pushWord [dot] w := by
  cases w with
  | nil => rfl
  | cons c w =>
    rw [stackOf, if_neg (by simp [(hw c List.mem_cons_self).2]), walk_nil_word hw]
    rfl

/-- A word that is printed as a path of its own is read as the word. -/
lemma walk_str_word {w : Text} (hw : ∀ c ∈ w, c ≠ 0 ∧ isSlash c = false) (hs : s ≠ []) :
    walk [] (str (pushWord [dot] w)) s = pushWord s w := by
  have hdot := isWord_dot.2
  have hpushDot : pushWord s dot = s := by rw [pushWord_word (by decide), push_dot hs]
  by_cases hnil : w = [] ∨ w = dot
  · have hleft : pushWord [dot] w = [dot] := by rcases hnil with rfl | rfl <;> rfl
    have hright : pushWord s w = s := by
      rcases hnil with rfl | rfl
      · exact pushWord_nil s
      · exact hpushDot
    rw [hleft, hright]
    exact (walk_nil_word hdot s).trans hpushDot
  · obtain ⟨hne, hnd⟩ := not_or.mp hnil
    have hleft : pushWord [dot] w = [w, dot] := by
      rw [pushWord_word hne]
      by_cases hdd : w = dotdot
      · subst hdd
        decide
      · simp [push, hne, hnd, hdd]
    have hstr : str [w, dot] = dot ++ 47 :: w := str_cons (by simp) w
    rw [hleft, hstr, walk_word hdot, List.nil_append, walk_slash, hpushDot, walk_nil_word hw]

/-- `cat` pushes what is behind the prefix of a word. -/
lemma cat_assign_word (ht : IsPrefix t) (hs : Wf s) (t' w : Text) (hne : t' ++ w ≠ [])
    (hlength : prefixLength (t' ++ w) = t'.length) (hw : ∀ c ∈ w, c ≠ 0 ∧ isSlash c = false) :
    (render t s).cat (assign (t' ++ w)) = render t (pushWord s w) := by
  have hassign : assign (t' ++ w) = render t' (pushWord [dot] w) := by
    rw [assign_eq_render hne rfl hlength, stackOf_word hw]
  have hdot : Wf (pushWord [dot] w) := wf_pushWord hw .here
  have hright : (render t' (pushWord [dot] w)).name_t ≠ [] := by
    obtain ⟨c, r, hstr, -⟩ := str_head hdot
    simp [render, hstr]
  have hleft : (render t s).name_t ≠ [] := by
    obtain ⟨c, r, hstr, -⟩ := str_head hs
    simp [render, hstr]
  have hdrop : (render t' (pushWord [dot] w)).asString.drop (render t' (pushWord [dot] w)).prfx_i =
      str (pushWord [dot] w) := by simp [render, Pathname.asString]
  rw [hassign, Pathname.cat, if_neg hright, if_neg hleft, hdrop, assign_render ht hs (by simp [AtSlash]), walk_slash,
    pushWord_nil, walk_str_word hw hs.ne_nil]

lemma render_injective {s s' : List Text} (hs : Wf s) (hs' : Wf s') (h : render t s = render t s') : s = s' := by
  have hstr : str s = str s' := List.append_cancel_left (congrArg Pathname.name_t h)
  have hread := stackOf_str hs atSlash_nil
  have hread' := stackOf_str hs' atSlash_nil
  rw [hstr, hread'] at hread
  exact hread.symm

lemma pushWord_ne {w : Text} (hn : n.length ≠ w.length) : pushWord s w ≠ n :: s := by
  intro h
  unfold pushWord push at h
  split at h
  · exact absurd (congrArg List.length h) (by simp)
  · split at h
    · exact hn (by rw [(List.cons.inj h).1])
    · split at h
      · exact absurd (congrArg List.length h) (by simp)
      · split at h
        · split at h
          · exact absurd (congrArg List.length h) (by simp)
          · split at h
            · exact absurd (congrArg List.length h) (by simp; omega)
            · exact hn (by rw [(List.cons.inj h).1])
        · exact hn (by rw [(List.cons.inj h).1])

end Cat

/-! ### The laws -/

/-- `cat (dirname (p), basename (p)) == p` -/
def CatLaw (p : Pathname) : Prop := p.dirname.cat (assign p.basename) = p

lemma Normal.catLaw_iff {p : Pathname} (h : Normal p) : CatLaw p ↔ hasPrefix p.basename = false := by
  rcases h.shape with rfl | ⟨t, bot, ht, hbot, rfl⟩ | ⟨t, n, s, ht, hword, hs, hns, rfl⟩
  · exact iff_of_true rfl rfl
  · obtain ⟨hdirname, hbasename⟩ := dirname_bottom ht hbot
    rw [CatLaw, hdirname, hbasename]
    rcases hbot with rfl | rfl
    · exact iff_of_true rfl rfl
    · refine iff_of_true ?_ rfl
      have hcat := cat_assign_word ht .here [] dot (by decide) rfl isWord_dot.2
      rwa [List.nil_append, pushWord_word (by decide), push_dot (by simp)] at hcat
  · obtain ⟨hdirname, hbasename⟩ := dirname_cons (t := t) hword hs.ne_nil
    obtain ⟨t', w, -, hn, hlength, hplain⟩ := exists_prefix n
    have hw : ∀ c ∈ w, c ≠ 0 ∧ isSlash c = false :=
      fun c hc => hword.2 c (hn ▸ List.mem_append_right _ hc)
    have hcat := cat_assign_word ht hs t' w (hn ▸ hword.1) (hn ▸ hlength) hw
    rw [CatLaw, hdirname, hbasename]
    constructor
    · intro hlaw
      by_contra hprefix
      have hlonger : n.length ≠ w.length := by
        have htwo : t'.length = 2 := by
          rw [← hlength, prefixLength, if_pos (by simpa using hprefix)]
        rw [hn, List.length_append]
        omega
      rw [← hn] at hcat
      exact pushWord_ne hlonger (render_injective (wf_pushWord hw hs) hns (hcat.symm.trans hlaw))
    · intro hprefix
      obtain rfl := hplain hprefix
      rw [List.nil_append] at hn hcat
      subst hn
      rw [hcat, pushWord_word hword.1, (push_of_wf hs.ne_nil hns).2.2]

lemma normal_cat {l r : Pathname} (hl : Normal l) (hr : Normal r) : Normal (l.cat r) := by
  unfold Pathname.cat
  split
  · exact hl
  · split
    · exact hr
    · exact normal_assign _

lemma normal_dirname {p : Pathname} (h : Normal p) : Normal p.dirname := by
  rcases h.shape with rfl | ⟨t, bot, ht, hbot, rfl⟩ | ⟨t, n, s, ht, hword, hs, -, rfl⟩
  · exact .inl rfl
  · rw [(dirname_bottom ht hbot).1]
    exact h
  · rw [(dirname_cons hword hs.ne_nil).1]
    exact .inr ⟨t, s, ht, hs, rfl⟩

/-- Every path name there is has a normal text. -/
lemma Built.normal {p : Pathname} (h : Built p) : Normal p := by
  induction h with
  | default => exact .inl rfl
  | assign name => exact normal_assign name
  | dirname _ ih => exact normal_dirname ih
  | cat _ _ ihl ihr => exact normal_cat ihl ihr
  | extend _ r _ => exact normal_assign _
  | absolutename _ ih =>
    unfold Pathname.absolutename
    split
    · exact normal_cat (normal_assign _) ih
    · exact ih
  | relativename _ ih =>
    unfold Pathname.relativename
    split
    · exact normal_cat (normal_assign _) ih
    · exact ih

/-- Behind the last slash stands what looks like a prefix. -/
def EndsInPrefix (name : Text) : Prop :=
  ∃ front l rest, name = front ++ 47 :: l :: 58 :: rest ∧ isLetter l = true ∧ 47 ∉ rest

lemma eq_of_last_slash {a b a' b' : Text} (h : a ++ 47 :: b = a' ++ 47 :: b') (hb : 47 ∉ b) (hb' : 47 ∉ b') :
    b = b' := by
  have hlast {a b : Text} (hb : 47 ∉ b) : findLast (· == 47) (a ++ 47 :: b) = some a.length :=
    findLast_append_cons a rfl fun x hx => by
      have hx47 : x ≠ 47 := ne_of_mem_of_not_mem hx hb
      simpa using hx47
  have hlength : a.length = a'.length := Option.some.inj ((hlast hb).symm.trans (h ▸ hlast hb'))
  exact (List.cons.inj (List.append_inj_right h hlength)).2

lemma hasPrefix_iff {n : Text} : hasPrefix n = true ↔ ∃ l rest, n = l :: 58 :: rest ∧ isLetter l = true := by
  constructor
  · intro h
    unfold hasPrefix at h
    split at h
    · next l c rest =>
      obtain ⟨rfl, hl⟩ : c = 58 ∧ isLetter l = true := by simpa using h
      exact ⟨l, rest, rfl, hl⟩
    · exact absurd h Bool.false_ne_true
    · exact absurd h Bool.false_ne_true
  · rintro ⟨l, rest, rfl, hl⟩
    simp [hasPrefix, hl]

/-- The last word of a text with a slash. -/
lemma endsInPrefix_append {front n : Text} (hn : 47 ∉ n) : EndsInPrefix (front ++ 47 :: n) ↔ hasPrefix n = true := by
  rw [hasPrefix_iff]
  constructor
  · rintro ⟨front', l, rest, hname, hl, hrest⟩
    exact ⟨l, rest, eq_of_last_slash hname hn (not_mem_of_isLetter hl hrest), hl⟩
  · rintro ⟨l, rest, rfl, hl⟩
    exact ⟨front, l, rest, rfl, hl, fun h => hn (by simp [h])⟩

lemma Normal.hasPrefix_basename_iff {p : Pathname} (h : Normal p) :
    hasPrefix p.basename = true ↔ EndsInPrefix p.asString := by
  have hnone {name : Text} (hname : 47 ∉ name) : ¬EndsInPrefix name := by
    rintro ⟨front, l, rest, rfl, -⟩
    simp at hname
  rcases h.shape with rfl | ⟨t, bot, ht, hbot, rfl⟩ | ⟨t, n, s, ht, hword, hs, -, rfl⟩
  · exact iff_of_false (by decide) (hnone (by simp [Pathname.asString]))
  · rw [(dirname_bottom ht hbot).2]
    rcases hbot with rfl | rfl
    · have hname : (render t [[]]).asString = t ++ 47 :: [] := rfl
      rw [hname, endsInPrefix_append (by simp)]
    · have hname : (render t [dot]).asString = t ++ dot := rfl
      refine iff_of_false (by decide) (hnone ?_)
      rw [hname]
      exact not_mem_prefix_dot ht
  · have hname : (render t (n :: s)).asString = (t ++ body s) ++ 47 :: n := by
      simp [render, str_cons hs.ne_nil, Pathname.asString]
    have hslash : 47 ∉ n := fun hmem => absurd (not_slash_of_isWord hword 47 hmem) (by decide)
    rw [(dirname_cons hword hs.ne_nil).2, hname, endsInPrefix_append hslash]

/-- Normalising again changes nothing, and a path name is put together again from its two parts
unless the second one looks like a prefix of its own. -/
theorem pathname_laws (name : Text) (p : Pathname) (hp : Built p) :
    assign (assign name).asString = assign name ∧ (CatLaw p ↔ ¬EndsInPrefix p.asString) := by
  refine ⟨(normal_assign name).assign_asString, ?_⟩
  rw [hp.normal.catLaw_iff, ← hp.normal.hasPrefix_basename_iff, Bool.not_eq_true]

/-- The file `a` of the root directory, and `b` written in a longer way. -/
theorem file_put_together :
    assign (assign [97, 47, 46, 46, 47, 98]).asString = assign [97, 47, 46, 46, 47, 98] ∧
      (CatLaw (assign [47, 97]) ↔ ¬EndsInPrefix (assign [47, 97]).asString) :=
  pathname_laws _ _ (.assign _)

/-- The file `c:` of the root directory. -/
theorem prefix_not_put_together : ¬∀ p, Built p → CatLaw p := by
  intro h
  have hlaw := h (assign [47, 99, 58]) (.assign _)
  exact absurd hlaw (by unfold CatLaw; decide)

end YastCore.Util
