import BrowserHost.Shell.Session

/-!
# BrowserHost.Proofs.Script

A session of the shell is a fold over the lines of its input.  What a line asks
for depends on nothing but the line, so it can be read off before anything is
carried out; the session then goes through the readings in order, up to the
first that ends it.

* `inputLines_eq_iff`: the lines of an input are the only way to cut it so that
  every line ends at its first line feed;
* `parse_eq_empty_iff`: the two notions of a blank line agree;
* `run_eq_foldl`: a session is the fold over the readings that it heeds.
-/

namespace BrowserHost.Shell

/-! ## lines -/

/-- The lines all end at their first line feed, only the last may lack it, and
no line is empty. -/
inductive IsCut : List (List UInt8) → Prop
  | nil : IsCut []
  | rest (b : UInt8) (l : List UInt8) (hl : 10 ∉ b :: l) : IsCut [b :: l]
  | line (l : List UInt8) (ls : List (List UInt8)) (hl : 10 ∉ l) (h : IsCut ls) :
      IsCut ((l ++ [10]) :: ls)

theorem flatten_inputLines (bs : List UInt8) : (inputLines bs).flatten = bs := by
  induction bs with
  | nil => rfl
  | cons b bs ih =>
    unfold inputLines
    split
    · simp [ih]
    · split
      · next hnone => simpa [hnone] using ih
      · next l ls hsome => simpa [hsome] using ih

theorem isCut_inputLines (bs : List UInt8) : IsCut (inputLines bs) := by
  induction bs with
  | nil => exact .nil
  | cons b bs ih =>
    unfold inputLines
    split
    · next hb =>
      subst hb
      exact .line [] _ (by simp) ih
    · next hb =>
      have hhead (l : List UInt8) (hl : 10 ∉ l) : 10 ∉ b :: l := by
        simp [hl, Ne.symm hb]
      cases hbs : inputLines bs with
      | nil => exact .rest b [] (hhead [] (by simp))
      | cons m ls =>
        rw [hbs] at ih
        cases ih with
        | rest c l hl => exact .rest b (c :: l) (hhead _ hl)
        | line l _ hl h => exact .line (b :: l) ls (hhead l hl) h

/-- What is cut so is found again. -/
theorem inputLines_line {l : List UInt8} (hl : 10 ∉ l) (bs : List UInt8) :
    inputLines (l ++ 10 :: bs) = (l ++ [10]) :: inputLines bs := by
  induction l with
  | nil => simp [inputLines]
  | cons b l ih =>
    simp only [List.mem_cons, not_or] at hl
    rw [List.cons_append, inputLines, if_neg (Ne.symm hl.1), ih hl.2]
    rfl

theorem inputLines_rest {b : UInt8} {l : List UInt8} (hl : 10 ∉ b :: l) :
    inputLines (b :: l) = [b :: l] := by
  induction l generalizing b with
  | nil =>
    have hb : b ≠ 10 := by grind
    simp [inputLines, hb]
  | cons c l ih =>
    have hb : b ≠ 10 := by grind
    rw [inputLines, if_neg hb, ih (by grind)]

theorem inputLines_flatten {ls : List (List UInt8)} (h : IsCut ls) :
    inputLines ls.flatten = ls := by
  induction h with
  | nil => rfl
  | rest b l hl => simpa using inputLines_rest hl
  | line l ls hl _ ih =>
    have happend : ((l ++ [10]) :: ls).flatten = l ++ 10 :: ls.flatten := by simp
    rw [happend, inputLines_line hl, ih]

/-- The lines of an input are the only way to cut it. -/
theorem inputLines_eq_iff {bs : List UInt8} {ls : List (List UInt8)} :
    inputLines bs = ls ↔ IsCut ls ∧ ls.flatten = bs := by
  constructor
  · rintro rfl
    exact ⟨isCut_inputLines bs, flatten_inputLines bs⟩
  · rintro ⟨h, rfl⟩
    exact inputLines_flatten h

/-! ## readings -/

/-- What a line is to the shell: no text, blank, no command, or a command. -/
inductive Reading
  | garbled
  | blank
  | mistake (e : ParseFault)
  | order (c : Command)
  deriving DecidableEq, Repr

namespace Reading

/-- The reading of a text. -/
def ofText (line : List Char) : Reading :=
  if line.all Text.isBlank then .blank
  else
    match Command.parse line with
    | .error e => .mistake e
    | .ok c => .order c

/-- The reading of a line. -/
def ofLine (l : List UInt8) : Reading :=
  match lineText? l with
  | none => .garbled
  | some line => ofText line

/-- Whether the shell reads no more after such a line. -/
def isLast : Reading → Bool
  | .garbled | .order .quit => true
  | .blank | .mistake _ | .order _ => false

/-- What is printed about such a line, and what becomes of the console. -/
def effect (k : Console) : Reading → List Piece × Console
  | .garbled | .blank => ([], k)
  | .mistake e => ([.text (Console.parseFaultText k.color e)], k)
  | .order c => ([.text (k.perform c).1], (k.perform c).2)

/-- Prompt for a line and do what it asks for; what is printed is kept newest
first. -/
def follow (before : List Piece × Console) (r : Reading) : List Piece × Console :=
  ((r.effect before.2).1 ++ .prompt :: before.1, (r.effect before.2).2)

/-- The readings up to the first that ends the shell, and that one. -/
def heeded (rs : List Reading) : List Reading :=
  rs.takeWhile (!·.isLast) ++ (rs.find? (·.isLast)).toList

theorem isLast_iff {r : Reading} : r.isLast ↔ r = .garbled ∨ r = .order .quit := by
  cases r with
  | order c => cases c <;> simp [isLast]
  | _ => simp [isLast]

theorem heeded_cons (r : Reading) (rs : List Reading) :
    heeded (r :: rs) = if r.isLast then [r] else r :: heeded rs := by
  cases hr : r.isLast <;> simp [heeded, hr]

end Reading

/-- A text has no token exactly if it is blank; nothing else makes a command
empty. -/
theorem parse_eq_empty_iff {line : List Char} :
    Command.parse line = .error .empty ↔ line.all Text.isBlank := by
  have hhead (head : String) (arg : Option String) :
      Command.ofHead head arg ≠ .error .empty := by
    unfold Command.ofHead
    split
    · simp
    · split <;> simp
  rw [List.all_eq_true, ← Text.tokens_eq_nil_iff, Command.parse]
  match Text.tokens line with
  | [] => simp [Command.ofWords]
  | [head] => simpa [Command.ofWords] using hhead _ _
  | [head, arg] => simpa [Command.ofWords] using hhead _ _
  | head :: a :: b :: more => simp [Command.ofWords]

theorem Reading.ofLine_ne_empty (l : List UInt8) : ofLine l ≠ .mistake .empty := by
  unfold ofLine ofText
  split
  · simp
  · split
    · simp
    · next line _ hline =>
      split
      · next e he =>
        rintro ⟨⟩
        exact hline (parse_eq_empty_iff.1 he)
      · simp

/-! ## sessions -/

namespace Console

theorem perform_color (k : Console) (c : Command) : (k.perform c).2.color = k.color := by
  have hrequest (c : BrowserHost.Command) : (k.request c).2.color = k.color := by
    have hcall : (k.call (.request c)).2.color = k.color := rfl
    unfold request
    split <;> simp_all
  match c with
  | .suspend | .resume => exact hrequest _
  | .url none | .url (some _) | .hide | .unhide | .state | .fps | .health | .help | .quit => rfl

theorem effect_color (k : Console) (r : Reading) : (r.effect k).2.color = k.color := by
  cases r with
  | order c => exact k.perform_color c
  | garbled | blank | mistake e => rfl

end Console

namespace Session

open Reading

/-- A text is dealt with as it reads. -/
theorem handle_eq (s : Session) (line : List Char) :
    s.handle line =
      { s with
        console := ((ofText line).effect s.console).2
        out := ((ofText line).effect s.console).1 ++ s.out
        stopping := s.stopping || ofText line == .order .quit } := by
  have hblank : (Text.trim line).isEmpty = line.all Text.isBlank := by
    rw [Bool.eq_iff_iff, List.isEmpty_iff, Text.trim_eq_nil_iff, List.all_eq_true]
  unfold handle ofText
  rw [hblank]
  split
  · have hquit : (Reading.blank == .order .quit) = false := rfl
    simp [effect, hquit]
  · cases Command.parse line with
    | error e => simp [effect, print]
    | ok c =>
      have hquit : ((s.console.execute c).1 == Flow.quit) = (Reading.order c == .order .quit) := by
        cases c <;> rfl
      simp only [effect, ← hquit]
      rfl

/-- So is a line. -/
theorem readLine_eq (s : Session) (l : List UInt8) :
    s.readLine l =
      { console := (follow (s.out, s.console) (ofLine l)).2
        out := (follow (s.out, s.console) (ofLine l)).1
        err := if ofLine l = .garbled then s.err ++ readErrorText s.console.color else s.err
        stopping := s.stopping || ofLine l == .order .quit
        broken := s.broken || ofLine l == .garbled } := by
  unfold readLine ofLine
  cases lineText? l with
  | none => simp [follow, effect, print]
  | some line =>
    have htext : ofText line ≠ .garbled := by
      unfold ofText
      split
      · simp
      · split <;> simp
    simp only [handle_eq, follow, print]
    simp [htext]

theorem isOver_readLine {s : Session} (hs : s.isOver = false) (l : List UInt8) :
    (s.readLine l).isOver = (ofLine l).isLast := by
  have hlast : (ofLine l).isLast = (ofLine l == .order .quit || ofLine l == .garbled) := by
    rw [Bool.eq_iff_iff, isLast_iff]
    simp [or_comm]
  simp only [isOver, Bool.or_eq_false_iff] at hs
  rw [readLine_eq, isOver, hs.1, hs.2, hlast]
  rfl

/-- A session that goes on heeds the lines up to the first that ends it; if
none does, it prompts once more. -/
theorem run_of_not_isOver {s : Session} (hs : s.isOver = false) (ls : List (List UInt8)) :
    let rs := heeded (ls.map ofLine)
    let (out, console) := rs.foldl follow (s.out, s.console)
    s.run ls =
      { console := console
        out := if rs.any isLast then out else .prompt :: out
        err := if .garbled ∈ rs then s.err ++ readErrorText s.console.color else s.err
        stopping := rs.any (· == .order .quit)
        broken := rs.any (· == .garbled) } := by
  induction ls generalizing s with
  | nil =>
    simp only [isOver, Bool.or_eq_false_iff] at hs
    simp [run, isOver, hs, heeded, print]
  | cons l ls ih =>
    have hover := isOver_readLine hs l
    have hs' := hs
    simp only [isOver, Bool.or_eq_false_iff] at hs'
    rw [List.map_cons, heeded_cons, run, hs, if_neg Bool.false_ne_true]
    cases hl : (ofLine l).isLast with
    | true =>
      rw [hl] at hover
      rw [run_of_isOver hover, readLine_eq]
      simp [hs', hl, eq_comm]
    | false =>
      rw [hl] at hover
      obtain ⟨hgarbled, hquit⟩ : ofLine l ≠ .garbled ∧ ofLine l ≠ .order .quit := by
        rw [← not_or, ← isLast_iff, hl]
        exact Bool.false_ne_true
      have hfirst : s.readLine l =
          { s with
            out := (follow (s.out, s.console) (ofLine l)).1
            console := (follow (s.out, s.console) (ofLine l)).2 } := by
        rw [readLine_eq]
        simp [hgarbled, hquit]
      have hcolor : (s.readLine l).console.color = s.console.color := by
        rw [hfirst]
        exact s.console.effect_color _
      have hrest := ih hover
      rw [hcolor] at hrest
      simp only [hfirst] at hrest ⊢
      simp only [hrest]
      simp [hl, hgarbled, hgarbled.symm, hquit]

/-- A session is the fold over the readings that it heeds: none if it was asked
to stop before it began, else those of the lines up to the first that is no text
or asks it to quit.  Each costs a prompt; a blank line nothing else, a mistake
one text, a command one text and what it does to the console.  At the end of
the input there is one more prompt.  The lines are the input cut after every line
feed, and none of them is read as an empty command. -/
theorem run_eq_foldl (bs : List UInt8) (k : Console) (stopping : Bool) (before : List Piece)
    (err : String) :
    let s : Session := { console := k, out := before, err := err, stopping := stopping }
    let rs := if stopping then [] else heeded ((inputLines bs).map ofLine)
    let (out, console) := rs.foldl follow (before, k)
    s.run (inputLines bs) =
        { console := console
          out := if stopping || rs.any isLast then out else .prompt :: out
          err := if .garbled ∈ rs then err ++ readErrorText k.color else err
          stopping := stopping || rs.any (· == .order .quit)
          broken := rs.any (· == .garbled) } ∧
      (∀ ls, inputLines bs = ls ↔ IsCut ls ∧ ls.flatten = bs) ∧
      .mistake .empty ∉ (inputLines bs).map ofLine := by
  intro s rs
  have hempty : Reading.mistake .empty ∉ (inputLines bs).map ofLine := by
    rw [List.mem_map]
    rintro ⟨l, -, hl⟩
    exact ofLine_ne_empty l hl
  refine ⟨?_, fun _ => inputLines_eq_iff, hempty⟩
  cases stopping with
  | true =>
    have hover : s.isOver = true := rfl
    rw [run_of_isOver hover]
    rfl
  | false =>
    have hover : s.isOver = false := rfl
    exact run_of_not_isOver hover (inputLines bs)

end Session

end BrowserHost.Shell
