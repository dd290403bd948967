import BrowserHost.Proofs.Spacing
import BrowserHost.Shell.Command

/-!
# BrowserHost.Proofs.Grammar

Which lines are which commands, and what is wrong with the others.

* `Means`: what the words of a line are to the shell;
* `ofWords_eq_iff`: words are read as just that;
* `parse_decided`: a line is read by its words alone, and a command that is written out
  is read as the command.
-/

namespace BrowserHost.Shell.Command

open Text (IsGap IsSpaced IsWord)

/-! ## the grammar -/

/-- The words that are commands by themselves. -/
def vocabulary : List (String × Command) :=
  [("/suspend", .suspend), ("/resume", .resume), ("/hide", .hide), ("/show", .unhide),
    ("/state", .state), ("/fps", .fps), ("/health", .health), ("/help", .help), ("/quit", .quit),
    ("/exit", .quit)]

/-- A word that the shell knows. -/
def IsKnown (head : String) : Prop :=
  head = "/url" ∨ ∃ c, (head, c) ∈ vocabulary

/-- What the words of a line are to the shell.  A line with too many words is refused
whatever they are, and an unknown word whether or not one follows it. -/
inductive Means : List String → Except ParseFault Command → Prop
  | ask : Means ["/url"] (.ok (.url none))
  | visit (target : String) : Means ["/url", target] (.ok (.url (some target)))
  | plain {head : String} {c : Command} (h : (head, c) ∈ vocabulary) : Means [head] (.ok c)
  | empty : Means [] (.error .empty)
  | tooMany {head : String} {args : List String} (hargs : 2 ≤ args.length) :
      Means (head :: args) (.error (.tooManyArguments head))
  | unknown {head : String} {args : List String} (hargs : args.length ≤ 1) (h : ¬IsKnown head) :
      Means (head :: args) (.error (.unknown head))
  | superfluous {head : String} {c : Command} (arg : String) (h : (head, c) ∈ vocabulary) :
      Means [head, arg] (.error (.superfluousArgument head))

theorem ofHead?_eq_some_iff {head : String} {c : Command} :
    ofHead? head = some c ↔ (head, c) ∈ vocabulary := by
  constructor
  · intro h
    unfold ofHead? at h
    split at h <;> simp_all [vocabulary]
  · intro h
    simp only [vocabulary, List.mem_cons, Prod.mk.injEq, List.not_mem_nil, or_false] at h
    rcases h with ⟨rfl, rfl⟩ | ⟨rfl, rfl⟩ | ⟨rfl, rfl⟩ | ⟨rfl, rfl⟩ | ⟨rfl, rfl⟩ | ⟨rfl, rfl⟩ |
      ⟨rfl, rfl⟩ | ⟨rfl, rfl⟩ | ⟨rfl, rfl⟩ | ⟨rfl, rfl⟩ <;> rfl

theorem ne_url_of_mem {head : String} {c : Command} (h : (head, c) ∈ vocabulary) :
    head ≠ "/url" := by
  rintro rfl
  simp [vocabulary] at h

theorem ofHead_of_mem {head : String} {c : Command} (h : (head, c) ∈ vocabulary)
    (arg : Option String) :
    ofHead head arg = if arg.isSome then .error (.superfluousArgument head) else .ok c := by
  unfold ofHead
  rw [if_neg (ne_url_of_mem h), ofHead?_eq_some_iff.2 h]
  cases arg <;> rfl

theorem ofHead_of_not_isKnown {head : String} (h : ¬IsKnown head) (arg : Option String) :
    ofHead head arg = .error (.unknown head) := by
  obtain ⟨hurl, hwords⟩ := not_or.1 h
  have hnone : ofHead? head = none := Option.eq_none_iff_forall_ne_some.2 fun c hc =>
    hwords ⟨c, ofHead?_eq_some_iff.1 hc⟩
  unfold ofHead
  rw [if_neg hurl, hnone]

theorem ofWords_of_means {ws : List String} {r : Except ParseFault Command} (h : Means ws r) :
    ofWords ws = r := by
  cases h with
  | ask | visit | empty => rfl
  | plain h => exact ofHead_of_mem h none
  | superfluous arg h => exact ofHead_of_mem h (some arg)
  | @tooMany head args hargs =>
    match args, hargs with
    | _ :: _ :: _, _ => rfl
  | @unknown head args hargs h =>
    match args, hargs with
    | [], _ => exact ofHead_of_not_isKnown h none
    | [arg], _ => exact ofHead_of_not_isKnown h (some arg)

/-- All words mean something, if only a fault. -/
theorem exists_means (ws : List String) : ∃ r, Means ws r := by
  match ws with
  | [] => exact ⟨_, .empty⟩
  | head :: _ :: _ :: _ => exact ⟨_, .tooMany (by simp)⟩
  | [head] =>
    by_cases hknown : IsKnown head
    · obtain rfl | ⟨c, hc⟩ := hknown
      · exact ⟨_, .ask⟩
      · exact ⟨_, .plain hc⟩
    · exact ⟨_, .unknown (by simp) hknown⟩
  | [head, arg] =>
    by_cases hknown : IsKnown head
    · obtain rfl | ⟨c, hc⟩ := hknown
      · exact ⟨_, .visit arg⟩
      · exact ⟨_, .superfluous arg hc⟩
    · exact ⟨_, .unknown (by simp) hknown⟩

/-- Words are read as what they mean, and they mean one thing only. -/
theorem ofWords_eq_iff {ws : List String} {r : Except ParseFault Command} :
    ofWords ws = r ↔ Means ws r := by
  constructor
  · rintro rfl
    obtain ⟨r, hr⟩ := exists_means ws
    exact ofWords_of_means hr ▸ hr
  · exact ofWords_of_means

/-! ## lines -/

/-- The line consists of the words, with blanks around and between them. -/
def Spaces (ws : List String) (line : List Char) : Prop :=
  IsSpaced (ws.map String.toList) line

theorem spaces_iff {ws : List String} {line : List Char} :
    Spaces ws line ↔ (Text.tokens line).map String.ofList = ws := by
  rw [Spaces, ← Text.tokens_eq_iff]
  constructor
  · intro h
    simp [h]
  · rintro rfl
    simp

theorem parse_eq_iff {line : List Char} {r : Except ParseFault Command} :
    parse line = r ↔ ∃ ws, Spaces ws line ∧ Means ws r := by
  simp only [parse, ofWords_eq_iff, spaces_iff, exists_eq_left']

/-- A command that can be written in words: its URL, if it has one, is a word. -/
def IsWritable (c : Command) : Prop :=
  ∀ target, c = .url (some target) → IsWord target.toList

instance (c : Command) : Decidable c.IsWritable :=
  match c with
  | .url (some target) =>
    decidable_of_iff (IsWord target.toList) (by simp [IsWritable])
  | .url none | .suspend | .resume | .hide | .unhide | .state | .fps | .health | .help | .quit =>
    .isTrue (by simp [IsWritable])

theorem isWord_of_mem_words {c : Command} (h : c.IsWritable) :
    ∀ w ∈ c.words.map String.toList, IsWord w := by
  have hurl : IsWord "/url".toList := by decide
  match c with
  | .url (some target) =>
    have htarget := h target rfl
    exact List.forall_mem_cons.2 ⟨hurl, List.forall_mem_singleton.2 htarget⟩
  | .url none | .suspend | .resume | .hide | .unhide | .state | .fps | .health | .help | .quit =>
    simp only [words, List.map_cons, List.map_nil, List.forall_mem_singleton]
    decide

/-- Which lines are which commands.  The words of a line are the only ones it can be
spaced from; the line is read as what they mean, and only a word is taken for a URL.
Lines of the same words are read alike.  A command that is written in words, with blanks
before, between and after them, is read as the command. -/
theorem parse_decided :
    (∀ line, (∃! ws, Spaces ws line) ∧
      (∀ r, parse line = r ↔ ∃ ws, Spaces ws line ∧ Means ws r) ∧
      ∀ c, parse line = .ok c → c.IsWritable) ∧
    (∀ ws line line', Spaces ws line → Spaces ws line' → parse line = parse line') ∧
    ∀ (c : Command) (before gap after : List Char), c.IsWritable → IsGap before → IsGap gap →
      gap ≠ [] → IsGap after →
        parse (before ++ gap.intercalate (c.words.map String.toList) ++ after) = .ok c := by
  refine ⟨fun line => ⟨⟨_, spaces_iff.2 rfl, fun ws hws => (spaces_iff.1 hws).symm⟩,
    fun r => parse_eq_iff, fun c hc target htarget => ?_⟩, fun ws line line' hline hline' => ?_,
    fun c before gap after hc hbefore hgap hne hafter => ?_⟩
  · obtain ⟨ws, hspaced, hmeans⟩ := parse_eq_iff.1 hc
    subst htarget
    cases hmeans with
    | visit => exact IsSpaced.isWord hspaced _ (by simp)
    | plain h => simp [vocabulary] at h
  · rw [parse, parse, spaces_iff.1 hline, spaces_iff.1 hline']
  · have hspaced := Text.isSpaced_intercalate (isWord_of_mem_words hc) hbefore hgap hne hafter
    exact parse_eq_iff.2 ⟨c.words, hspaced, ofWords_eq_iff.1 c.ofWords_words⟩

/-- A URL may look like a command, and blanks are not only spaces. -/
theorem parse_decided_lookalike :
    let line := "\u00a0/url \t/quit\r\n".toList
    parse line = .ok (.url (some "/quit")) ∧ ¬Spaces ["/quit"] line ∧
      parse (line ++ "/exit".toList) = .error (.tooManyArguments "/url") := by
  intro line
  obtain ⟨hlines, -, hwritten⟩ := parse_decided
  have hparse : parse line = .ok (.url (some "/quit")) :=
    hwritten (.url (some "/quit")) ['\u00a0'] [' ', '\t'] ['\r', '\n'] (by decide) (by decide)
      (by decide) (by simp) (by decide)
  refine ⟨hparse, fun hspaced => ?_, ?_⟩
  · have hquit := ((hlines line).2.1 (.ok .quit)).2 ⟨_, hspaced, .plain (by decide)⟩
    rw [hparse] at hquit
    cases hquit
  · exact ((hlines _).2.1 _).2
      ⟨["/url", "/quit", "/exit"], spaces_iff.2 (by decide), .tooMany (by decide)⟩

end BrowserHost.Shell.Command
