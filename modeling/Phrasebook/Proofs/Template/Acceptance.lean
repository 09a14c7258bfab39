import Mathlib.Data.List.TakeWhile
import Phrasebook.Proofs.Template.Grammar

/-! # What the reader of templates accepts

The reader goes over a template in the way that its grammar says (`Reads.reaches`), and a text that
is no template makes it fail wherever it stands (`decided`). So it accepts exactly the grammar, and
printing is its inverse (`parse_reads_printed`). -/

namespace Phrasebook.Template

namespace State

/-! ### From one state to another -/

/-- **The reader gets from one state to another**, over what one text has more than the other. -/
def Reaches (s : State) (t : Text) (s' : State) (u : Text) : Prop :=
  ∀ position, ∃ position', run s position t = run s' position' u

/-- The reader fails on the rest of a text, wherever it began. -/
def Fails (s : State) (t : Text) : Prop := ∀ position, ∃ fault, run s position t = .error fault

theorem Reaches.refl (s : State) (t : Text) : Reaches s t s t := fun position => ⟨position, rfl⟩

theorem Reaches.trans {s s' s'' : State} {t u v : Text} (h : Reaches s t s' u)
    (h' : Reaches s' u s'' v) : Reaches s t s'' v := by
  intro position
  obtain ⟨between, hrun⟩ := h position
  obtain ⟨position', hrun'⟩ := h' between
  exact ⟨position', hrun.trans hrun'⟩

theorem Reaches.fails {s s' : State} {t u : Text} (h : Reaches s t s' u) (hfails : Fails s' u) :
    Fails s t := by
  intro position
  obtain ⟨position', hrun⟩ := h position
  obtain ⟨fault, hfault⟩ := hfails position'
  exact ⟨fault, hrun.trans hfault⟩

theorem reaches_of_step {s s' : State} {c : CodePoint} (h : s.step c = .ok s') (t : Text) :
    Reaches s (c :: t) s' t := by
  intro position
  exact ⟨position + 1, by rw [run, h]⟩

theorem fails_of_step {s : State} {c : CodePoint} {reason : Reason} (h : s.step c = .error reason)
    (t : Text) : Fails s (c :: t) := by
  intro position
  exact ⟨⟨reason, position⟩, by rw [run, h]⟩

theorem fails_of_finish {s : State} {reason : Reason} (h : s.finish = .error reason) :
    Fails s [] := by
  intro position
  exact ⟨⟨reason, position⟩, by rw [run, h]; rfl⟩

/-! ### Text -/

/-- The state in text with one more code point pending. -/
def withPoint (s : State) (c : CodePoint) : State :=
  { s with pending := c :: s.pending, mode := .text }

theorem step_plain {s : State} (hs : s.mode = .text) {c : CodePoint}
    (hc : isEscapable c = false) : s.step c = .ok (s.withPoint c) := by
  obtain ⟨hopen, hclose, hbackslash⟩ := isEscapable_eq_false.mp hc
  unfold step withPoint
  rw [hs]
  simp only [textStep, if_neg hbackslash, if_neg hopen, if_neg hclose, hs]

/-- A backslash is still to be read as text or as an escape. -/
theorem reaches_escape {s : State} (hs : s.mode = .text) (t : Text) :
    Reaches s (CodePoint.backslash :: t) { s with mode := .escape } t := by
  have hstep : s.step CodePoint.backslash = .ok { s with mode := .escape } := by
    unfold step
    rw [hs]
    exact if_pos rfl
  exact reaches_of_step hstep t

theorem reaches_escaped {s : State} (hs : s.mode = .text) {c : CodePoint}
    (hc : isEscapable c = true) (t : Text) :
    Reaches s (CodePoint.backslash :: c :: t) (s.withPoint c) t := by
  have hstep : step { s with mode := .escape } c = .ok (s.withPoint c) := by
    unfold step
    rw [if_pos hc]
    rfl
  exact (reaches_escape hs _).trans (reaches_of_step hstep t)

theorem reaches_backslash {s : State} (hs : s.mode = .text) {t : Text}
    (ht : ∀ c, t.head? = some c → isEscapable c = false) :
    Reaches s (CodePoint.backslash :: t) (s.withPoint CodePoint.backslash) t := by
  refine (reaches_escape hs t).trans ?_
  cases t with
  | nil =>
    -- At the end the pending backslash becomes text.
    intro position
    exact ⟨position, rfl⟩
  | cons c t =>
    have hc := ht c rfl
    have hescape : step { s with mode := .escape } c =
        .ok ((s.withPoint CodePoint.backslash).withPoint c) := by
      unfold step
      rw [if_neg (Bool.eq_false_iff.mp hc)]
      rfl
    have htext : step (s.withPoint CodePoint.backslash) c =
        .ok ((s.withPoint CodePoint.backslash).withPoint c) :=
      step_plain rfl hc
    intro position
    exact ⟨position, by rw [run, hescape, run, htext]⟩

/-! ### Placeholders -/

/-- The state before the name of a placeholder. -/
def atPlaceholder (s : State) : State :=
  { s with elements := s.flushed, pending := [], mode := .opened }

theorem reaches_openBrace {s : State} (hs : s.mode = .text) (t : Text) :
    Reaches s (CodePoint.openBrace :: t) s.atPlaceholder t := by
  have hstep : s.step CodePoint.openBrace = .ok s.atPlaceholder := by
    unfold step
    rw [hs]
    rfl
  exact reaches_of_step hstep t

/-- Spaces before the name are skipped. -/
theorem reaches_spaces {s : State} (hs : s.mode = .opened) (t : Text) :
    ∀ n : Nat, Reaches s (List.replicate n CodePoint.space ++ t) s t
  | 0 => .refl s t
  | n + 1 => by
    have hstep : s.step CodePoint.space = .ok s := by
      unfold step
      rw [hs]
      rfl
    exact (reaches_of_step hstep _).trans (reaches_spaces hs t n)

theorem reaches_nameParts {s : State} {letters : Text} (hs : s.mode = .naming letters) (t : Text) :
    ∀ name : Text, (∀ c ∈ name, isNamePart c = true) →
      Reaches s (name ++ t) { s with mode := .naming (name.reverse ++ letters) } t
  | [], _ => by
    have hsame : { s with mode := .naming letters } = s := by rw [← hs]
    rw [List.reverse_nil, List.nil_append, List.nil_append, hsame]
    exact .refl s t
  | c :: name, h => by
    obtain ⟨hc, hname⟩ := List.forall_mem_cons.mp h
    have hstep : s.step c = .ok { s with mode := .naming (c :: letters) } := by
      unfold step
      rw [hs]
      exact if_pos hc
    have hrest := reaches_nameParts (s := { s with mode := .naming (c :: letters) }) rfl t name hname
    rw [List.reverse_cons, List.append_assoc]
    exact (reaches_of_step hstep _).trans hrest

theorem reaches_name {s : State} (hs : s.mode = .opened) {name : Text} (hname : isName name)
    (t : Text) : Reaches s (name ++ t) { s with mode := .naming name.reverse } t := by
  cases name with
  | nil => cases hname
  | cons c name =>
    simp only [isName, Bool.and_eq_true, List.all_eq_true] at hname
    have hspace : c ≠ CodePoint.space := by
      rintro rfl
      exact absurd hname.1 (by decide)
    have hstep : s.step c = .ok { s with mode := .naming [c] } := by
      unfold step
      rw [hs]
      exact (if_neg hspace).trans (if_pos hname.1)
    have hrest := reaches_nameParts (s := { s with mode := .naming [c] }) rfl t name hname.2
    rw [List.reverse_cons]
    exact (reaches_of_step hstep _).trans hrest

/-- What a placeholder is read as after its name and so many spaces. -/
def IsNamed (mode : Mode) (name : Text) (spaces : Nat) : Prop :=
  (spaces = 0 ∧ mode = .naming name.reverse) ∨ mode = .named name

theorem IsNamed.step_eq {s : State} {name : Text} {spaces : Nat} (h : IsNamed s.mode name spaces)
    {c : CodePoint} (hc : spaces = 0 → isNamePart c = false) : s.step c = s.nameEndStep name c := by
  unfold step
  rcases h with ⟨hspaces, hs⟩ | hs
  · simp only [hs, hc hspaces, List.reverse_reverse]
    rfl
  · rw [hs]

theorem IsNamed.finish_eq {s : State} {name : Text} {spaces : Nat}
    (h : IsNamed s.mode name spaces) : s.finish = .error .unclosedBrace := by
  unfold finish
  rcases h with ⟨-, hs⟩ | hs <;> rw [hs]

/-- Spaces after the name are skipped. -/
theorem exists_reaches_spaces {s : State} {name : Text} (hs : s.mode = .naming name.reverse)
    (spaces : Nat) (t : Text) : ∃ mode, IsNamed mode name spaces ∧
      Reaches s (List.replicate spaces CodePoint.space ++ t) { s with mode } t := by
  have hnamed : ∀ n, Reaches { s with mode := .named name }
      (List.replicate n CodePoint.space ++ t) { s with mode := .named name } t := by
    intro n
    induction n with
    | zero => exact .refl _ _
    | succ n ih => exact (reaches_of_step rfl _).trans ih
  cases spaces with
  | zero =>
    refine ⟨s.mode, Or.inl ⟨rfl, hs⟩, ?_⟩
    exact .refl _ _
  | succ n =>
    have hstep : s.step CodePoint.space = .ok { s with mode := .named name } := by
      unfold step
      rw [hs]
      show nameEndStep s name.reverse.reverse CodePoint.space = _
      rw [List.reverse_reverse]
      rfl
    exact ⟨.named name, Or.inr rfl, (reaches_of_step hstep _).trans (hnamed n)⟩

/-- **The head of a placeholder is read** up to what follows its name. -/
theorem exists_reaches_heading {s : State} (hs : s.mode = .text) {name : Text}
    (hname : isName name) (before after : Nat) (t : Text) :
    ∃ mode, IsNamed mode name after ∧
      Reaches s (CodePoint.openBrace :: (heading before name after ++ t))
        { s.atPlaceholder with mode } t := by
  obtain ⟨mode, hmode, hreaches⟩ := exists_reaches_spaces
    (s := { s.atPlaceholder with mode := .naming name.reverse }) rfl after t
  refine ⟨mode, hmode, ?_⟩
  unfold heading
  simp only [List.append_assoc]
  exact (((reaches_openBrace hs _).trans (reaches_spaces rfl _ before)).trans
    (reaches_name rfl hname _)).trans hreaches

/-- The state after a value. -/
def afterValue (s : State) (name : Text) : State :=
  { stack := s.stack, elements := .value name :: s.flushed }

/-- The state in the body of a formatter. -/
def inBody (s : State) (name : Text) : State := { stack := ⟨name, s.flushed⟩ :: s.stack }

theorem reaches_value {s : State} (hs : s.mode = .text) {name : Text} (hname : isName name)
    (before after : Nat) (t : Text) :
    Reaches s (CodePoint.openBrace :: (heading before name after ++ CodePoint.closeBrace :: t))
      (s.afterValue name) t := by
  obtain ⟨mode, hmode, hreaches⟩ := exists_reaches_heading hs hname before after
    (CodePoint.closeBrace :: t)
  have hstep : step { s.atPlaceholder with mode } CodePoint.closeBrace = .ok (s.afterValue name) :=
    IsNamed.step_eq hmode fun _ => by decide
  exact hreaches.trans (reaches_of_step hstep t)

theorem reaches_formatter {s : State} (hs : s.mode = .text) {name : Text} (hname : isName name)
    (before after : Nat) (t : Text) :
    Reaches s (CodePoint.openBrace :: (heading before name after ++ CodePoint.ofChar ':' :: t))
      (s.inBody name) t := by
  obtain ⟨mode, hmode, hreaches⟩ := exists_reaches_heading hs hname before after
    (CodePoint.ofChar ':' :: t)
  have hstep : step { s.atPlaceholder with mode } (CodePoint.ofChar ':') = .ok (s.inBody name) :=
    IsNamed.step_eq hmode fun _ => by decide
  exact hreaches.trans (reaches_of_step hstep t)

/-! ### Templates -/

/-- The elements so far and more elements, with the pending text before them. -/
def followedBy (s : State) (elements : List Element) : List Element :=
  s.elements.reverse ++ s.pending.reverse.foldr addPoint elements

theorem followedBy_withPoint (s : State) (c : CodePoint) (elements : List Element) :
    (s.withPoint c).followedBy elements = s.followedBy (addPoint c elements) := by
  show s.elements.reverse ++ (c :: s.pending).reverse.foldr addPoint elements = _
  rw [List.reverse_cons, List.foldr_append]
  rfl

/-- Pending text is the last element, before elements that do not begin with text. -/
theorem followedBy_of_not_text (s : State) {elements : List Element}
    (h : ∀ u others, elements ≠ .text u :: others) :
    s.followedBy elements = s.flushed.reverse ++ elements := by
  unfold followedBy flushed
  rw [foldr_addPoint h]
  cases s.pending with
  | nil => rw [List.reverse_nil, if_pos rfl]
  | cons c pending =>
    rw [if_neg (by simp)]
    simp only [List.reverse_cons, List.append_assoc, List.singleton_append]

theorem followedBy_nil (s : State) : s.followedBy [] = s.flushed.reverse := by
  have hnil : ∀ u others, ([] : List Element) ≠ .text u :: others := by
    intro u others hsame
    cases hsame
  rw [followedBy_of_not_text s hnil, List.append_nil]

/-- After a placeholder nothing is pending, and the placeholder is the last element. -/
theorem followedBy_placeholder (s : State) {e : Element} (he : ∀ u, e ≠ .text u)
    (stack : List Frame) (elements : List Element) :
    followedBy { stack, elements := e :: s.flushed } elements = s.followedBy (e :: elements) := by
  have hnew : ∀ u others, e :: elements ≠ .text u :: others := by
    intro u others hsame
    exact he u (List.cons.inj hsame).1
  rw [followedBy_of_not_text s hnew]
  show (e :: s.flushed).reverse ++ elements = _
  rw [List.reverse_cons, List.append_assoc]
  rfl

theorem step_closeBrace {s : State} (hs : s.mode = .text) {frame : Frame} {stack : List Frame}
    (hstack : s.stack = frame :: stack) :
    s.step CodePoint.closeBrace =
      .ok { stack, elements := .formatter frame.name s.flushed.reverse :: frame.before } := by
  unfold step textStep
  rw [hs, hstack]
  rfl

theorem reaches_closeBrace {s : State} (hs : s.mode = .text) {frame : Frame} {stack : List Frame}
    (hstack : s.stack = frame :: stack) (t : Text) :
    Reaches s (CodePoint.closeBrace :: t)
      { stack, elements := .formatter frame.name s.flushed.reverse :: frame.before } t :=
  reaches_of_step (step_closeBrace hs hstack) t

/-- **The reader gets over a template** with some elements: it is in text again, in the same body,
and the elements follow those that it had. -/
def Passes (s : State) (t : Text) (elements : List Element) (rest : Text) : Prop :=
  ∃ s', Reaches s t s' rest ∧ s'.mode = .text ∧ s'.stack = s.stack ∧
    s'.flushed.reverse = s.followedBy elements

theorem Passes.after {s s' : State} {t u rest : Text} {elements elements' : List Element}
    (hpasses : Passes s' u elements' rest) (hreaches : Reaches s t s' u)
    (hstack : s'.stack = s.stack) (helements : s'.followedBy elements' = s.followedBy elements) :
    Passes s t elements rest := by
  obtain ⟨last, hrest, hmode, hlast, hflushed⟩ := hpasses
  exact ⟨last, hreaches.trans hrest, hmode, hlast.trans hstack, hflushed.trans helements⟩

/-- **What is written as a template is read** as its elements, whatever is open around it and
whatever was read before. -/
theorem passes_of_reads {t rest : Text} {parts : List Part} (h : Reads t parts rest) :
    ∀ s : State, s.mode = .text → Passes s t (elementsOf parts) rest := by
  induction h with
  | nil t =>
    intro s hs
    rw [elementsOf]
    exact ⟨s, .refl s t, hs, rfl, s.followedBy_nil.symm⟩
  | @plain c t rest parts hc h ih =>
    intro s hs
    rw [elementsOf]
    exact (ih (s.withPoint c) rfl).after (reaches_of_step (step_plain hs hc) t) rfl
      (s.followedBy_withPoint c _)
  | @escaped c t rest parts hc h ih =>
    intro s hs
    rw [elementsOf]
    exact (ih (s.withPoint c) rfl).after (reaches_escaped hs hc t) rfl (s.followedBy_withPoint c _)
  | @backslash t rest parts ht h ih =>
    intro s hs
    rw [elementsOf]
    exact (ih (s.withPoint CodePoint.backslash) rfl).after (reaches_backslash hs ht) rfl
      (s.followedBy_withPoint _ _)
  | @value before after name t rest parts hname h ih =>
    intro s hs
    rw [elementsOf]
    exact (ih (s.afterValue name) rfl).after (reaches_value hs hname before after t) rfl
      (s.followedBy_placeholder (fun u hsame => by cases hsame) s.stack _)
  | @formatter before after name t u rest body parts hname hbody h ihbody ih =>
    intro s hs
    obtain ⟨s', hinner, hmode, hstack, hflushed⟩ := ihbody (s.inBody name) rfl
    have hbodyElements : s'.flushed.reverse = elementsOf body := hflushed
    have hreaches := ((reaches_formatter hs hname before after t).trans hinner).trans
      (reaches_closeBrace hmode hstack u)
    rw [hbodyElements] at hreaches
    rw [elementsOf]
    exact (ih _ rfl).after hreaches rfl
      (s.followedBy_placeholder (fun u hsame => by cases hsame) s.stack _)

/-! ### Texts that are no templates -/

/-- A text is a run of code points of a class and something else. -/
theorem exists_run_append (p : CodePoint → Bool) (t : Text) :
    ∃ run u, t = run ++ u ∧ (∀ c ∈ run, p c = true) ∧ ∀ d, u.head? = some d → p d = false := by
  refine ⟨t.takeWhile p, t.dropWhile p, List.takeWhile_append_dropWhile.symm,
    fun c hc => List.mem_takeWhile_imp hc, fun d hd => ?_⟩
  have hnot := List.head?_dropWhile_not p t
  rw [hd] at hnot
  simpa using hnot

theorem exists_spaces_append (t : Text) : ∃ n u, t = List.replicate n CodePoint.space ++ u ∧
    ∀ d, u.head? = some d → d ≠ CodePoint.space := by
  obtain ⟨run, u, rfl, hrun, hu⟩ := exists_run_append (· = CodePoint.space) t
  have hspaces : run = List.replicate run.length CodePoint.space :=
    List.eq_replicate_of_mem fun d hd => of_decide_eq_true (hrun d hd)
  exact ⟨run.length, u, congrArg (· ++ u) hspaces, fun d hd => of_decide_eq_false (hu d hd)⟩

/-- **A brace opens a placeholder** with a name and an end of the name, or nothing that the reader
goes on with. -/
theorem exists_heading_or_fails (t : Text) :
    (∃ before name after c u, isName name ∧ IsClosing c ∧ t = heading before name after ++ c :: u) ∨
      ∀ s : State, s.mode = .text → Fails s (CodePoint.openBrace :: t) := by
  obtain ⟨before, t₁, rfl, hfirst⟩ := exists_spaces_append t
  have hopened : ∀ s : State, s.mode = .text → Reaches s
      (CodePoint.openBrace :: (List.replicate before CodePoint.space ++ t₁)) s.atPlaceholder t₁ :=
    fun s hs => (reaches_openBrace hs _).trans (reaches_spaces rfl t₁ before)
  cases t₁ with
  | nil => exact Or.inr fun s hs => (hopened s hs).fails (fails_of_finish rfl)
  | cons first t₂ =>
    by_cases hstart : isNameStart first = true
    · -- The name is as long as it can be, and so are the spaces after it.
      obtain ⟨run, t₃, rfl, hrun, hstop⟩ := exists_run_append isNamePart t₂
      obtain ⟨after, t₄, rfl, hspace⟩ := exists_spaces_append t₃
      have hname : isName (first :: run) := by
        simp only [isName, hstart, Bool.true_and, List.all_eq_true]
        exact hrun
      have htext : List.replicate before CodePoint.space ++
          first :: (run ++ (List.replicate after CodePoint.space ++ t₄)) =
            heading before (first :: run) after ++ t₄ := by
        unfold heading
        simp only [List.append_assoc, List.cons_append]
      rw [htext]
      cases t₄ with
      | nil =>
        refine Or.inr fun s hs => ?_
        obtain ⟨mode, hmode, hreaches⟩ := exists_reaches_heading hs hname before after []
        exact hreaches.fails (fails_of_finish (IsNamed.finish_eq hmode))
      | cons c u =>
        by_cases hc : IsClosing c
        · exact Or.inl ⟨before, first :: run, after, c, u, hname, hc, rfl⟩
        · refine Or.inr fun s hs => ?_
          obtain ⟨mode, hmode, hreaches⟩ := exists_reaches_heading hs hname before after (c :: u)
          obtain ⟨hclose, hcolon⟩ := not_or.mp hc
          have hpart : after = 0 → isNamePart c = false := by
            rintro rfl
            exact hstop c rfl
          have hstep : step { s.atPlaceholder with mode } c = .error (.unexpected c) := by
            rw [IsNamed.step_eq hmode hpart]
            unfold nameEndStep
            rw [if_neg (hspace c rfl), if_neg hclose, if_neg hcolon]
          exact hreaches.fails (fails_of_step hstep u)
    · have hstep : ∀ s : State, s.atPlaceholder.step first = .error .expectedName := by
        intro s
        exact (if_neg (hfirst first rfl)).trans (if_neg hstart)
      exact Or.inr fun s hs => (hopened s hs).fails (fails_of_step (hstep s) t₂)

end State

theorem Reads.length_le {t rest : Text} {parts : List Part} (h : Reads t parts rest) :
    rest.length ≤ t.length := by
  induction h with
  | nil t => exact le_rfl
  | plain hc h ih => exact Nat.le_succ_of_le ih
  | escaped hc h ih => exact Nat.le_succ_of_le (Nat.le_succ_of_le ih)
  | backslash ht h ih => exact Nat.le_succ_of_le ih
  | value hname h ih =>
    simp only [List.length_cons, List.length_append]
    omega
  | formatter hname hbody h ihbody ih =>
    simp only [List.length_cons, List.length_append] at ihbody ⊢
    omega

/-- A text begins with a template up to where none goes on, or the reader fails on it. -/
def Decided (t : Text) : Prop := (∃ parts rest, Reads t parts rest ∧ Ends rest) ∨
  ∀ s : State, s.mode = .text → s.Fails t

section Decided
open State

/-- A text with one more part before it, if the reader gets over the part. -/
theorem Decided.cons {t u : Text} (h : Decided t) (part : Part)
    (hreads : ∀ {parts rest}, Reads t parts rest → Reads u (part :: parts) rest)
    (hreaches : ∀ s : State, s.mode = .text → ∃ s' : State, s'.mode = .text ∧ Reaches s u s' t) :
    Decided u := by
  rcases h with ⟨parts, rest, hparts, hrest⟩ | hfails
  · exact Or.inl ⟨part :: parts, rest, hreads hparts, hrest⟩
  · refine Or.inr fun s hs => ?_
    obtain ⟨s', hs', hu⟩ := hreaches s hs
    exact hu.fails (hfails s' hs')

theorem decided_plain {c : CodePoint} (hc : isEscapable c = false) {t : Text} (h : Decided t) :
    Decided (c :: t) :=
  h.cons (.plain c) (.plain hc) fun s hs =>
    ⟨s.withPoint c, rfl, reaches_of_step (step_plain hs hc) t⟩

theorem decided_escaped {c : CodePoint} (hc : isEscapable c = true) {t : Text} (h : Decided t) :
    Decided (CodePoint.backslash :: c :: t) :=
  h.cons (.escaped c) (.escaped hc) fun s hs => ⟨s.withPoint c, rfl, reaches_escaped hs hc t⟩

theorem decided_backslash {t : Text} (ht : ∀ c, t.head? = some c → isEscapable c = false)
    (h : Decided t) : Decided (CodePoint.backslash :: t) :=
  h.cons .backslash (.backslash ht) fun s hs =>
    ⟨s.withPoint CodePoint.backslash, rfl, reaches_backslash hs ht⟩

theorem decided_value {name : Text} (hname : isName name) (before after : Nat) {t : Text}
    (h : Decided t) :
    Decided (CodePoint.openBrace :: (heading before name after ++ CodePoint.closeBrace :: t)) :=
  h.cons (.value before name after) (.value hname) fun s hs =>
    ⟨s.afterValue name, rfl, reaches_value hs hname before after t⟩

/-- The reader fails at the end of the text if a formatter is open. -/
theorem fails_of_open {s : State} (hs : s.mode = .text) (hstack : s.stack ≠ []) : s.Fails [] := by
  have hfinish : s.finish = .error .unclosedBrace := by
    unfold finish
    rw [hs]
    exact if_neg (mt List.isEmpty_iff.mp hstack)
  exact fails_of_finish hfinish

theorem decided_formatter {name : Text} (hname : isName name) (before after : Nat) {t : Text}
    (h : ∀ u, u.length ≤ t.length → Decided u) :
    Decided (CodePoint.openBrace :: (heading before name after ++ CodePoint.ofChar ':' :: t)) := by
  rcases h t le_rfl with ⟨body, rest, hbody, hrest⟩ | hfails
  · have hread : ∀ s : State, s.mode = .text → ∃ s' : State, s'.mode = .text ∧
        (∃ frame, s'.stack = frame :: s.stack) ∧ Reaches s (CodePoint.openBrace ::
          (heading before name after ++ CodePoint.ofChar ':' :: t)) s' rest := by
      intro s hs
      obtain ⟨s', hreaches, hmode, hstack, -⟩ := passes_of_reads hbody (s.inBody name) rfl
      exact ⟨s', hmode, ⟨_, hstack⟩, (reaches_formatter hs hname before after t).trans hreaches⟩
    rcases hrest with rfl | ⟨u, rfl⟩
    · refine Or.inr fun s hs => ?_
      obtain ⟨s', hmode, ⟨frame, hstack⟩, hreaches⟩ := hread s hs
      exact hreaches.fails (fails_of_open hmode (hstack ▸ List.cons_ne_nil _ _))
    · refine (h u (Nat.le_of_succ_le hbody.length_le)).cons (.formatter before name after body)
        (.formatter hname hbody) fun s hs => ?_
      obtain ⟨s', hmode, ⟨frame, hstack⟩, hreaches⟩ := hread s hs
      exact ⟨_, rfl, hreaches.trans (reaches_closeBrace hmode hstack u)⟩
  · exact Or.inr fun s hs =>
      (reaches_formatter hs hname before after t).fails (hfails (s.inBody name) rfl)

/-- **Every text is decided.** -/
theorem decided (t : Text) : Decided t := by
  -- The induction is on the length, since more of the text follows the body of a formatter.
  induction hlength : t.length using Nat.strong_induction_on generalizing t with
  | _ length ih =>
    subst hlength
    cases t with
    | nil => exact Or.inl ⟨[], [], .nil [], Or.inl rfl⟩
    | cons c t =>
      have hrest : Decided t := ih _ (Nat.lt_succ_self _) t rfl
      by_cases hplain : isEscapable c = false
      · exact decided_plain hplain hrest
      · by_cases hclose : c = CodePoint.closeBrace
        · exact Or.inl ⟨[], c :: t, .nil _, Or.inr ⟨t, by rw [hclose]⟩⟩
        by_cases hopen : c = CodePoint.openBrace
        · subst hopen
          rcases exists_heading_or_fails t with ⟨before, name, after, d, u, hname, hd, rfl⟩ | hfails
          · have hshorter : ∀ v : Text, v.length ≤ u.length → Decided v := by
              intro v hv
              refine ih v.length ?_ v rfl
              simp only [List.length_cons, List.length_append]
              omega
            rcases hd with rfl | rfl
            · exact decided_value hname before after (hshorter u le_rfl)
            · exact decided_formatter hname before after hshorter
          · exact Or.inr hfails
        · have hbackslash : c = CodePoint.backslash := by
            by_contra hne
            exact hplain (isEscapable_eq_false.mpr ⟨hopen, hclose, hne⟩)
          subst hbackslash
          cases t with
          | nil => exact decided_backslash nofun hrest
          | cons d u =>
            by_cases hd : isEscapable d = true
            · exact decided_escaped hd (ih _ (Nat.lt_succ_of_lt (Nat.lt_succ_self _)) u rfl)
            · have hhead : ∀ e, (d :: u).head? = some e → isEscapable e = false := by
                rintro e ⟨⟩
                exact Bool.eq_false_iff.mpr hd
              exact decided_backslash hhead hrest

end Decided

/-! ### The whole template -/

/-- **The reader accepts exactly the grammar.** -/
theorem parse_eq_ok_iff {source : Text} {elements : List Element} :
    parse source = .ok elements ↔ ∃ parts, Reads source parts [] ∧ elementsOf parts = elements := by
  have hread : ∀ parts, Reads source parts [] → parse source = .ok (elementsOf parts) := by
    intro parts h
    obtain ⟨s, hreaches, hmode, hstack, hflushed⟩ := State.passes_of_reads h {} rfl
    obtain ⟨position, hrun⟩ := hreaches 0
    have hfinish : s.finish = .ok (elementsOf parts) := by
      unfold State.finish
      simp only [hmode, hstack, hflushed]
      rfl
    unfold parse
    rw [hrun, State.run, hfinish]
    rfl
  constructor
  · intro h
    rcases decided source with ⟨parts, rest, hreads, hrest⟩ | hfails
    · rcases hrest with rfl | ⟨u, rfl⟩
      · refine ⟨parts, hreads, ?_⟩
        rw [hread parts hreads] at h
        exact Except.ok.inj h
      · -- A closing brace that closes nothing.
        obtain ⟨s, hreaches, hmode, hstack, -⟩ := State.passes_of_reads hreads {} rfl
        have hstep : s.step CodePoint.closeBrace = .error .unmatchedBrace := by
          unfold State.step State.textStep
          rw [hmode, hstack]
          rfl
        obtain ⟨fault, hfault⟩ := hreaches.fails (State.fails_of_step hstep u) 0
        unfold parse at h
        rw [hfault] at h
        cases h
    · obtain ⟨fault, hfault⟩ := hfails {} rfl 0
      unfold parse at h
      rw [hfault] at h
      cases h
  · rintro ⟨parts, hreads, rfl⟩
    exact hread parts hreads

/-- **The reader accepts exactly the grammar, and printing is its inverse.** What it gives are the
elements of the only way in which the source is written, in normal form; and elements in normal form
are what their printed text is read as. -/
theorem parse_reads_printed :
    (∀ source elements, parse source = .ok elements ↔
      ∃ parts, Reads source parts [] ∧ elementsOf parts = elements) ∧
    (∀ source parts parts', Reads source parts [] → Reads source parts' [] → parts = parts') ∧
    (∀ source elements, parse source = .ok elements → Normal elements) ∧
      ∀ elements, Normal elements → parse (printed elements) = .ok elements := by
  refine ⟨fun source elements => parse_eq_ok_iff, ?_, ?_, ?_⟩
  · intro source parts parts' h h'
    exact (h.unique h' (Or.inl rfl) (Or.inl rfl)).1
  · intro source elements h
    obtain ⟨parts, hreads, rfl⟩ := parse_eq_ok_iff.mp h
    exact hreads.normal
  · intro elements h
    obtain ⟨parts, hreads, helements⟩ := exists_reads_printed h []
    rw [List.append_nil] at hreads
    exact parse_eq_ok_iff.mpr ⟨parts, hreads, helements⟩

/-- An escaped brace, a backslash before a letter, and a formatter around a value with spaces. -/
theorem parse_reads_printed_nested :
    let source : Text := "\\\x7b\\q\x7b b :x\x7bn \x7d\\\\\x7d"
    let elements : List Element :=
      [.text "\x7b\\q", .formatter "b" [.text "x", .value "n", .text "\\"]]
    (∃ parts, Reads source parts [] ∧ elementsOf parts = elements) ∧ Normal elements ∧
      parse (printed elements) = .ok elements := by
  intro source elements
  obtain ⟨hread, -, hnormal, hprinted⟩ := parse_reads_printed
  have hparse : parse source = .ok elements := rfl
  have hform := hnormal source elements hparse
  exact ⟨(hread source elements).mp hparse, hform, hprinted elements hform⟩

end Phrasebook.Template
