import Phrasebook.Proofs.Template.Names

/-! # The grammar of templates

A template is written as a sequence of parts: code points that stand for themselves, braces and
backslashes after a backslash, backslashes before anything else, and placeholders, in which spaces
may stand around the name (`Reads`). A text is written in at most one way (`Reads.unique`), and what
it reads as is in normal form (`Reads.normal`). Conversely what is in normal form is what its printed
text reads as (`exists_reads_printed`). -/

namespace Phrasebook.Template

/-! ### Parts -/

/-- **A part of a template as it is written.** -/
inductive Part where
  /-- A code point that stands for itself. -/
  | plain (c : CodePoint)
  /-- A brace or a backslash, after a backslash. -/
  | escaped (c : CodePoint)
  /-- A backslash that makes nothing literal. -/
  | backslash
  /-- A name in braces, with so many spaces before and after it. -/
  | value (before : Nat) (name : Text) (after : Nat)
  /-- A name and a template in braces. -/
  | formatter (before : Nat) (name : Text) (after : Nat) (body : List Part)

/-- A name with spaces around it. -/
def heading (before : Nat) (name : Text) (after : Nat) : Text :=
  List.replicate before CodePoint.space ++ (name ++ List.replicate after CodePoint.space)

/-- **A text begins with a template** that is written in the given parts, and goes on with the
rest. -/
inductive Reads : Text → List Part → Text → Prop where
  | nil (t : Text) : Reads t [] t
  | plain {c : CodePoint} {t rest : Text} {parts : List Part} (hc : isEscapable c = false)
      (h : Reads t parts rest) : Reads (c :: t) (.plain c :: parts) rest
  | escaped {c : CodePoint} {t rest : Text} {parts : List Part} (hc : isEscapable c = true)
      (h : Reads t parts rest) :
      Reads (CodePoint.backslash :: c :: t) (.escaped c :: parts) rest
  | backslash {t rest : Text} {parts : List Part}
      (ht : ∀ c, t.head? = some c → isEscapable c = false) (h : Reads t parts rest) :
      Reads (CodePoint.backslash :: t) (.backslash :: parts) rest
  | value {before after : Nat} {name t rest : Text} {parts : List Part} (hname : isName name)
      (h : Reads t parts rest) :
      Reads (CodePoint.openBrace :: (heading before name after ++ CodePoint.closeBrace :: t))
        (.value before name after :: parts) rest
  | formatter {before after : Nat} {name t u rest : Text} {body parts : List Part}
      (hname : isName name) (hbody : Reads t body (CodePoint.closeBrace :: u))
      (h : Reads u parts rest) :
      Reads (CodePoint.openBrace :: (heading before name after ++ CodePoint.ofChar ':' :: t))
        (.formatter before name after body :: parts) rest

/-- The elements with one more code point of text before them. -/
def addPoint (c : CodePoint) : List Element → List Element
  | .text t :: rest => .text (c :: t) :: rest
  | elements => .text [c] :: elements

/-- **The elements that are written** in some parts. -/
def elementsOf : List Part → List Element
  | [] => []
  | .plain c :: rest | .escaped c :: rest => addPoint c (elementsOf rest)
  | .backslash :: rest => addPoint CodePoint.backslash (elementsOf rest)
  | .value _ name _ :: rest => .value name :: elementsOf rest
  | .formatter _ name _ body :: rest => .formatter name (elementsOf body) :: elementsOf rest

/-! ### What a text begins with -/

theorem isEscapable_eq_false {c : CodePoint} : isEscapable c = false ↔
    c ≠ CodePoint.openBrace ∧ c ≠ CodePoint.closeBrace ∧ c ≠ CodePoint.backslash := by
  simp [isEscapable, and_assoc]

theorem space_ne_of_isName {c : CodePoint} {rest : Text} (h : isName (c :: rest)) :
    c ≠ CodePoint.space := by
  rintro rfl
  simp only [isName, Bool.and_eq_true] at h
  exact absurd h.1 (by decide)

theorem takeWhile_replicate_append {c : CodePoint} {t : Text} (h : ∀ d, t.head? = some d → d ≠ c)
    (n : Nat) : (List.replicate n c ++ t).takeWhile (· = c) = List.replicate n c := by
  have hall : ∀ d ∈ List.replicate n c, decide (d = c) = true :=
    fun d hd => decide_eq_true (List.eq_of_mem_replicate hd)
  have hnone : t.takeWhile (fun d => decide (d = c)) = [] := by
    cases t with
    | nil => rfl
    | cons d t => exact List.takeWhile_cons_of_neg (by simpa using h d rfl)
  rw [List.takeWhile_append_of_pos hall, hnone, List.append_nil]

theorem replicate_append_injective {c : CodePoint} {m n : Nat} {t u : Text}
    (ht : ∀ d, t.head? = some d → d ≠ c) (hu : ∀ d, u.head? = some d → d ≠ c)
    (h : List.replicate m c ++ t = List.replicate n c ++ u) : m = n ∧ t = u := by
  have hrun := congrArg (List.takeWhile (· = c)) h
  rw [takeWhile_replicate_append ht, takeWhile_replicate_append hu] at hrun
  have hlength : m = n := by simpa using congrArg List.length hrun
  subst hlength
  exact ⟨rfl, List.append_cancel_left h⟩

theorem name_append_injective {name name' t u : Text} (hname : isName name) (hname' : isName name')
    (ht : ∀ c, t.head? = some c → isNamePart c = false)
    (hu : ∀ c, u.head? = some c → isNamePart c = false) (h : name ++ t = name' ++ u) :
    name = name' ∧ t = u := by
  have hrun : ∀ {name t : Text}, isName name → (∀ c, t.head? = some c → isNamePart c = false) →
      (name ++ t).takeWhile isNamePart = name := by
    intro name t hname ht
    have hnone : t.takeWhile isNamePart = [] := by
      cases t with
      | nil => rfl
      | cons c t => exact List.takeWhile_cons_of_neg (by simp [ht c rfl])
    rw [List.takeWhile_append_of_pos fun c hc => isNamePart_of_mem hname hc, hnone,
      List.append_nil]
  have heq := congrArg (List.takeWhile isNamePart) h
  rw [hrun hname ht, hrun hname' hu] at heq
  subst heq
  exact ⟨rfl, List.append_cancel_left h⟩

/-- What may follow the name of a placeholder and its spaces. -/
def IsClosing (c : CodePoint) : Prop := c = CodePoint.closeBrace ∨ c = CodePoint.ofChar ':'

theorem IsClosing.isNamePart {c : CodePoint} (h : IsClosing c) :
    isNamePart c = false ∧ c ≠ CodePoint.space := by
  rcases h with rfl | rfl <;> decide

/-- **The head of a placeholder** is told apart from what follows it. -/
theorem heading_append_injective {m n m' n' : Nat} {name name' t u : Text} {c d : CodePoint}
    (hname : isName name) (hname' : isName name') (hc : IsClosing c) (hd : IsClosing d)
    (h : heading m name n ++ c :: t = heading m' name' n' ++ d :: u) :
    m = m' ∧ name = name' ∧ n = n' ∧ c = d ∧ t = u := by
  have hfirst : ∀ {name t : Text}, isName name →
      ∀ d, (name ++ t).head? = some d → d ≠ CodePoint.space := by
    intro name t hname d hd
    cases name with
    | nil => cases hname
    | cons c name =>
      cases hd
      exact space_ne_of_isName hname
  have hafter : ∀ {n : Nat} {c : CodePoint} {t : Text}, IsClosing c →
      ∀ d, (List.replicate n CodePoint.space ++ c :: t).head? = some d →
        Template.isNamePart d = false := by
    intro n c t hc d hd
    cases n with
    | zero =>
      cases hd
      exact hc.isNamePart.1
    | succ n =>
      cases hd
      decide
  have hclosing : ∀ {c : CodePoint} {t : Text}, IsClosing c →
      ∀ d, (c :: t).head? = some d → d ≠ CodePoint.space := by
    intro c t hc d hd
    cases hd
    exact hc.isNamePart.2
  unfold heading at h
  simp only [List.append_assoc] at h
  obtain ⟨hbefore, h⟩ := replicate_append_injective (hfirst hname) (hfirst hname') h
  obtain ⟨hnames, h⟩ := name_append_injective hname hname' (hafter hc) (hafter hd) h
  obtain ⟨hspaces, h⟩ := replicate_append_injective (hclosing hc) (hclosing hd) h
  obtain ⟨hsame, hrest⟩ := List.cons.inj h
  exact ⟨hbefore, hnames, hspaces, hsame, hrest⟩

/-! ### One way to read -/

/-- No template goes on at the end of the text and before a closing brace. -/
def Ends (t : Text) : Prop := t = [] ∨ ∃ u, t = CodePoint.closeBrace :: u

theorem Ends.eq_closeBrace {c : CodePoint} {t : Text} (h : Ends (c :: t)) :
    c = CodePoint.closeBrace := by
  rcases h with h | ⟨u, h⟩
  · cases h
  · exact (List.cons.inj h).1

theorem Reads.nil_of_ends {t rest : Text} {parts : List Part} (h : Reads t parts rest)
    (ht : Ends t) : parts = [] ∧ rest = t := by
  rcases ht with rfl | ⟨u, rfl⟩
  · cases h
    exact ⟨rfl, rfl⟩
  · cases h with
    | nil => exact ⟨rfl, rfl⟩
    | plain hc h => cases hc

/-- **What begins with an opening brace** is read as a value or as a formatter. -/
theorem Reads.of_openBrace {t rest : Text} {parts : List Part}
    (h : Reads (CodePoint.openBrace :: t) parts rest) (hrest : Ends rest) :
    (∃ before name after u more, isName name ∧
      t = heading before name after ++ CodePoint.closeBrace :: u ∧
        parts = .value before name after :: more ∧ Reads u more rest) ∨
      ∃ before name after u v body more, isName name ∧
        t = heading before name after ++ CodePoint.ofChar ':' :: u ∧
          parts = .formatter before name after body :: more ∧
            Reads u body (CodePoint.closeBrace :: v) ∧ Reads v more rest := by
  cases h with
  | nil => cases hrest.eq_closeBrace
  | plain hc => cases hc
  | value hname h => exact Or.inl ⟨_, _, _, _, _, hname, rfl, rfl, h⟩
  | formatter hname hbody h => exact Or.inr ⟨_, _, _, _, _, _, _, hname, rfl, rfl, hbody, h⟩

/-- **A text is written in one way only**, up to where no template goes on. -/
theorem Reads.unique {t rest rest' : Text} {parts parts' : List Part} (h : Reads t parts rest)
    (h' : Reads t parts' rest') (hrest : Ends rest) (hrest' : Ends rest') :
    parts = parts' ∧ rest = rest' := by
  induction h generalizing parts' rest' with
  | nil t =>
    obtain ⟨rfl, rfl⟩ := h'.nil_of_ends hrest
    exact ⟨rfl, rfl⟩
  | @plain c t rest parts hc h ih =>
    have hplain := isEscapable_eq_false.mp hc
    cases h' with
    | nil => exact absurd hrest'.eq_closeBrace hplain.2.1
    | plain _ h' =>
      obtain ⟨rfl, rfl⟩ := ih h' hrest hrest'
      exact ⟨rfl, rfl⟩
    | escaped => exact absurd rfl hplain.2.2
    | backslash => exact absurd rfl hplain.2.2
    | value => exact absurd rfl hplain.1
    | formatter => exact absurd rfl hplain.1
  | @escaped c t rest parts hc h ih =>
    cases h' with
    | nil => cases hrest'.eq_closeBrace
    | plain hc' => cases hc'
    | escaped _ h' =>
      obtain ⟨rfl, rfl⟩ := ih h' hrest hrest'
      exact ⟨rfl, rfl⟩
    | backslash ht =>
      rw [ht c rfl] at hc
      cases hc
  | @backslash t rest parts ht h ih =>
    cases h' with
    | nil => cases hrest'.eq_closeBrace
    | plain hc' => cases hc'
    | @escaped c _ _ _ hc' =>
      rw [ht c rfl] at hc'
      cases hc'
    | backslash _ h' =>
      obtain ⟨rfl, rfl⟩ := ih h' hrest hrest'
      exact ⟨rfl, rfl⟩
  | value hname h ih =>
    rcases h'.of_openBrace hrest' with ⟨_, _, _, _, _, hname', htext, rfl, h'⟩ |
      ⟨_, _, _, _, _, _, _, hname', htext, -, -, -⟩
    · obtain ⟨rfl, rfl, rfl, -, rfl⟩ :=
        heading_append_injective hname hname' (Or.inl rfl) (Or.inl rfl) htext
      obtain ⟨rfl, rfl⟩ := ih h' hrest hrest'
      exact ⟨rfl, rfl⟩
    · obtain ⟨-, -, -, hne, -⟩ :=
        heading_append_injective hname hname' (Or.inl rfl) (Or.inr rfl) htext
      cases hne
  | formatter hname hbody h ihbody ih =>
    rcases h'.of_openBrace hrest' with ⟨_, _, _, _, _, hname', htext, -, -⟩ |
      ⟨_, _, _, _, _, _, _, hname', htext, rfl, hbody', h'⟩
    · obtain ⟨-, -, -, hne, -⟩ :=
        heading_append_injective hname hname' (Or.inr rfl) (Or.inl rfl) htext
      cases hne
    · obtain ⟨rfl, rfl, rfl, -, rfl⟩ :=
        heading_append_injective hname hname' (Or.inr rfl) (Or.inr rfl) htext
      obtain ⟨rfl, hrests⟩ := ihbody hbody' (Or.inr ⟨_, rfl⟩) (Or.inr ⟨_, rfl⟩)
      obtain ⟨-, rfl⟩ := List.cons.inj hrests
      obtain ⟨rfl, rfl⟩ := ih h' hrest hrest'
      exact ⟨rfl, rfl⟩

/-! ### Normal form -/

/-- **Elements in normal form**: no text is empty or follows another text, and names are well
formed, at any depth. -/
inductive Normal : List Element → Prop where
  | nil : Normal []
  | text {t : Text} {rest : List Element} (ht : t ≠ [])
      (hnext : ∀ u others, rest ≠ .text u :: others) (h : Normal rest) : Normal (.text t :: rest)
  | value {name : Text} {rest : List Element} (hname : isName name) (h : Normal rest) :
      Normal (.value name :: rest)
  | formatter {name : Text} {body rest : List Element} (hname : isName name)
      (hbody : Normal body) (h : Normal rest) : Normal (.formatter name body :: rest)

theorem Normal.addPoint {elements : List Element} (h : Normal elements) (c : CodePoint) :
    Normal (addPoint c elements) := by
  cases h with
  | nil => exact .text (List.cons_ne_nil _ _) nofun .nil
  | text ht hnext h => exact .text (List.cons_ne_nil _ _) hnext h
  | value hname h => exact .text (List.cons_ne_nil _ _) nofun (.value hname h)
  | formatter hname hbody h =>
    exact .text (List.cons_ne_nil _ _) nofun (.formatter hname hbody h)

/-- **What is read is in normal form.** -/
theorem Reads.normal {t rest : Text} {parts : List Part} (h : Reads t parts rest) :
    Normal (elementsOf parts) := by
  induction h with
  | nil t =>
    rw [elementsOf]
    exact .nil
  | plain hc h ih =>
    rw [elementsOf]
    exact ih.addPoint _
  | escaped hc h ih =>
    rw [elementsOf]
    exact ih.addPoint _
  | backslash ht h ih =>
    rw [elementsOf]
    exact ih.addPoint _
  | value hname h ih =>
    rw [elementsOf]
    exact .value hname ih
  | formatter hname hbody h ihbody ih =>
    rw [elementsOf]
    exact .formatter hname ihbody ih

/-! ### Printing -/

/-- A code point of text, written so that it stands for itself. -/
def printedPoint (c : CodePoint) : Text := if isEscapable c then [CodePoint.backslash, c] else [c]

/-- **The elements as a text**: braces and backslashes of literal text are escaped, and no spaces
stand around names. -/
def printed : List Element → Text
  | [] => []
  | .text t :: rest => t.flatMap printedPoint ++ printed rest
  | .value name :: rest =>
    CodePoint.openBrace :: (name ++ CodePoint.closeBrace :: printed rest)
  | .formatter name body :: rest =>
    CodePoint.openBrace ::
      (name ++ CodePoint.ofChar ':' :: (printed body ++ CodePoint.closeBrace :: printed rest))

theorem foldr_addPoint {elements : List Element} (hnext : ∀ u others, elements ≠ .text u :: others) :
    ∀ t : Text, t.foldr addPoint elements = if t = [] then elements else .text t :: elements
  | [] => rfl
  | c :: t => by
    rw [List.foldr_cons, foldr_addPoint hnext t, if_neg (List.cons_ne_nil _ _)]
    by_cases ht : t = []
    · rw [if_pos ht, ht]
      unfold addPoint
      split
      next u others => exact absurd rfl (hnext u others)
      next => rfl
    · rw [if_neg ht, addPoint]

theorem exists_reads_text {rest left : Text} {parts : List Part} (h : Reads rest parts left) :
    ∀ t : Text, ∃ more, Reads (t.flatMap printedPoint ++ rest) more left ∧
      elementsOf more = t.foldr addPoint (elementsOf parts)
  | [] => ⟨parts, h, rfl⟩
  | c :: t => by
    obtain ⟨more, hreads, helements⟩ := exists_reads_text h t
    rw [List.flatMap_cons, List.append_assoc, List.foldr_cons, ← helements]
    unfold printedPoint
    split_ifs with hc
    · exact ⟨.escaped c :: more, .escaped hc hreads, by rw [elementsOf]⟩
    · exact ⟨.plain c :: more, .plain (Bool.eq_false_iff.mpr hc) hreads, by rw [elementsOf]⟩

/-- **What is printed is read** as the elements it was printed from, whatever follows. -/
theorem exists_reads_printed {elements : List Element} (h : Normal elements) :
    ∀ rest : Text, ∃ parts, Reads (printed elements ++ rest) parts rest ∧
      elementsOf parts = elements := by
  have heading_zero : ∀ name : Text, heading 0 name 0 = name := List.append_nil
  induction h with
  | nil =>
    intro rest
    rw [printed]
    exact ⟨[], .nil rest, by rw [elementsOf]⟩
  | @text t others ht hnext h ih =>
    intro rest
    obtain ⟨parts, hreads, helements⟩ := ih rest
    obtain ⟨more, hmore, htext⟩ := exists_reads_text hreads t
    rw [helements, foldr_addPoint hnext, if_neg ht] at htext
    rw [printed, List.append_assoc]
    exact ⟨more, hmore, htext⟩
  | @value name others hname h ih =>
    intro rest
    obtain ⟨parts, hreads, helements⟩ := ih rest
    have hvalue := @Reads.value 0 0 _ _ _ _ hname hreads
    rw [heading_zero] at hvalue
    refine ⟨.value 0 name 0 :: parts, ?_, by rw [elementsOf, helements]⟩
    rw [printed, List.cons_append, List.append_assoc, List.cons_append]
    exact hvalue
  | @formatter name body others hname hbody h ihbody ih =>
    intro rest
    obtain ⟨parts, hreads, helements⟩ := ih rest
    obtain ⟨inner, hinner, hbodies⟩ := ihbody (CodePoint.closeBrace :: (printed others ++ rest))
    have hformatter := @Reads.formatter 0 0 _ _ _ _ _ _ hname hinner hreads
    rw [heading_zero] at hformatter
    refine ⟨.formatter 0 name 0 inner :: parts, ?_, by rw [elementsOf, helements, hbodies]⟩
    rw [printed]
    simp only [List.cons_append, List.append_assoc]
    exact hformatter

end Phrasebook.Template
