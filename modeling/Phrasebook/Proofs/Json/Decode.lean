import Mathlib.Data.List.Forall2
import Mathlib.Data.List.Nodup
import Phrasebook.Json.Decode
import Phrasebook.Proofs.Json.Token
import Phrasebook.Proofs.Script.Layout

/-! # Decoding what is written

A text decodes to a tree if the decoder, wherever a value may stand, takes it for that tree and
stands behind it (`Decodes`). The scalars of generated script do, and lists and mappings do when
their items do, with any blanks between the tokens (`Decodes.list`, `Decodes.map`). A whole text
that decodes to a tree is decoded to it (`decode_of_decodes`). -/

namespace Phrasebook.Json

variable {α : Type}

/-! ### Going on -/

/-- **From one state before a text the decoder comes to another before a later part**, whatever the
offsets are. -/
def Reaches (s : State α) (t : Text) (s' : State α) (u : Text) : Prop :=
  ∀ offset, ∃ offset', run s (tokensFrom offset t) = run s' (tokensFrom offset' u)

theorem Reaches.trans {s₁ s₂ s₃ : State α} {t u w : Text} (h : Reaches s₁ t s₂ u)
    (h' : Reaches s₂ u s₃ w) : Reaches s₁ t s₃ w := by
  intro offset
  obtain ⟨middle, hmiddle⟩ := h offset
  obtain ⟨last, hlast⟩ := h' middle
  exact ⟨last, hmiddle.trans hlast⟩

theorem Scans.reaches {t rest : Text} {token : Token} (h : Scans t token rest) {s s' : State α}
    (hstep : ∀ offset, step s ⟨offset, token⟩ = .ok s') : Reaches s (t ++ rest) s' rest := by
  intro offset
  refine ⟨offset + t.length, ?_⟩
  rw [h offset, run, hstep]

/-- A token may lead to a state that tells where it stands, if the decoder goes on alike from it. -/
theorem Scans.reaches_next {t rest u : Text} {token : Token} (h : Scans t token rest)
    {s s' : State α} {next : Nat → State α}
    (hstep : ∀ offset, step s ⟨offset, token⟩ = .ok (next offset))
    (hrest : ∀ offset, Reaches (next offset) rest s' u) : Reaches s (t ++ rest) s' u := by
  intro offset
  obtain ⟨last, hlast⟩ := hrest offset (offset + t.length)
  refine ⟨last, ?_⟩
  rw [h offset, run, hstep]
  exact hlast

/-- A text that only stands between tokens. -/
def Gap (t : Text) : Prop := ∀ c ∈ t, isBlank c = true

theorem Gap.reaches {gap : Text} (h : Gap gap) (s : State α) (t : Text) :
    Reaches s (gap ++ t) s t := by
  induction gap with
  | nil => exact fun offset => ⟨offset, rfl⟩
  | cons c gap ih =>
    obtain ⟨hc, hgap⟩ := List.forall_mem_cons.mp h
    intro offset
    obtain ⟨offset', hrest⟩ := ih hgap (offset + 1)
    refine ⟨offset', ?_⟩
    rw [List.cons_append, tokensFrom_blank hc, hrest]

/-! ### Where a value may stand -/

/-- **A value is awaited** in the containers that the stack holds. -/
inductive AwaitsValue : State α → List (Frame α) → Prop where
  | value (stack : List (Frame α)) : AwaitsValue (.value stack) stack
  | firstItem (stack : List (Frame α)) : AwaitsValue (.firstItem stack) (.array [] :: stack)
  | item (comma : Nat) (items : List (Datum α)) (stack : List (Frame α)) :
      AwaitsValue (.item comma items stack) (.array items :: stack)

theorem AwaitsValue.step_eq {s : State α} {stack : List (Frame α)} (h : AwaitsValue s stack)
    {token : Token} (ht : token ≠ .endArray) (offset : Nat) :
    step s ⟨offset, token⟩ = beginValue stack ⟨offset, token⟩ := by
  cases h with
  | value => rfl
  | firstItem | item => exact if_neg ht

/-- **A name is awaited** after some members of an object. -/
inductive AwaitsName : State α → List (DatumKey × Datum α) → List (Frame α) → Prop where
  | name (comma : Nat) (entries : List (DatumKey × Datum α)) (stack : List (Frame α)) :
      AwaitsName (.name comma entries stack) entries stack
  | firstName (stack : List (Frame α)) : AwaitsName (.firstName stack) [] stack

theorem AwaitsName.step_text {s : State α} {entries : List (DatumKey × Datum α)}
    {stack : List (Frame α)} (h : AwaitsName s entries stack) (offset : Nat) (name : Text) :
    step s ⟨offset, .text name⟩ = .ok (.colon entries name stack) := by
  cases h <;> rfl

/-- **A text decodes to a tree** wherever a value may stand and no number goes on after it. -/
def Decodes (tree : Datum α) (t : Text) : Prop :=
  ∀ (s : State α) (stack : List (Frame α)) (rest : Text), AwaitsValue s stack → EndsNumber rest →
    Reaches s (t ++ rest) (close tree stack) rest

/-! ### Scalars -/

theorem decodes_of_scans {tree : Datum α} {t : Text} {token : Token}
    (hscans : ∀ rest, EndsNumber rest → Scans t token rest) (htoken : token ≠ .endArray)
    (hvalue : ∀ stack offset, beginValue (α := α) stack ⟨offset, token⟩ = .ok (close tree stack)) :
    Decodes tree t := by
  intro s stack rest hs hrest
  refine (hscans rest hrest).reaches fun offset => ?_
  rw [hs.step_eq htoken offset, hvalue]

theorem decodes_null : Decodes (.null : Datum α) "null" :=
  decodes_of_scans (fun rest _ => scans_null rest) (by decide) fun _ _ => rfl

theorem decodes_bool (b : Bool) : Decodes (.bool b : Datum α) (if b then "true" else "false") :=
  decodes_of_scans (fun rest _ => scans_bool b rest) (by simp) fun _ _ => rfl

theorem decodes_ofInt {n : Int} (h : (Nat.toDigits 10 n.natAbs).length ≤ Crash.digitLimit) :
    Decodes (.number (.int n) : Datum α) (Numeral.ofInt n) :=
  decodes_of_scans (fun _ hrest => scans_ofInt h hrest) (by simp) fun _ _ => rfl

theorem decodes_quoted {t : Text} (h : t.Unpaired) : Decodes (.text t : Datum α) t.quoted :=
  decodes_of_scans (fun rest _ => scans_quoted h rest) (by simp) fun _ _ => rfl

theorem decodes_literal (t : Text) : Decodes (.text t : Datum α) t.literal :=
  decodes_of_scans (fun rest _ => scans_literal t rest) (by simp) fun _ _ => rfl

/-! ### Lists -/

theorem endsNumber_cons {c : CodePoint} (h : c.isDigit = false)
    (hc : c ∉ [CodePoint.ofChar '.', CodePoint.ofChar 'e', CodePoint.ofChar 'E']) (t : Text) :
    EndsNumber (c :: t) := by
  rintro d hd
  cases hd
  exact ⟨h, hc⟩

theorem isBlank_plain {c : CodePoint} (h : isBlank c = true) : c.isDigit = false ∧
    c ∉ [CodePoint.ofChar '.', CodePoint.ofChar 'e', CodePoint.ofChar 'E'] := by
  simp only [isBlank, Bool.or_eq_true, decide_eq_true_eq] at h
  rcases h with ((rfl | rfl) | rfl) | rfl <;> decide

theorem Gap.endsNumber {gap : Text} (h : Gap gap) {t : Text} (ht : EndsNumber t) :
    EndsNumber (gap ++ t) := by
  cases gap with
  | nil => exact ht
  | cons c gap =>
    obtain ⟨hdigit, hc⟩ := isBlank_plain (h c List.mem_cons_self)
    exact endsNumber_cons hdigit hc _

/-- A punctuation mark takes the decoder on. -/
theorem reaches_punctuation {c : CodePoint} (token : Token) {s s' : State α}
    (hc : punctuation? c = some token ∧ isBlank c = false ∧ token.isLast = false)
    (hstep : ∀ offset, step s ⟨offset, token⟩ = .ok s') (rest : Text) :
    Reaches s (c :: rest) s' rest :=
  (scans_punctuation hc.1 hc.2.1 hc.2.2 rest).reaches hstep

theorem reaches_comma {s s' : State α} {next : Nat → State α}
    (hstep : ∀ offset, step s ⟨offset, .comma⟩ = .ok (next offset)) {rest u : Text}
    (hrest : ∀ offset, Reaches (next offset) rest s' u) :
    Reaches s (CodePoint.ofChar ',' :: rest) s' u :=
  (scans_punctuation rfl rfl rfl rest).reaches_next hstep hrest

section Containers
variable {before after : Text} (hbefore : Gap before) (hafter : Gap after)

/-- Brackets with nothing between them are the empty list. -/
theorem decodes_nil_list :
    Decodes (.list [] : Datum α) [CodePoint.ofChar '[', CodePoint.ofChar ']'] := by
  intro s stack rest hs _
  have hopen : Reaches s ([CodePoint.ofChar '[', CodePoint.ofChar ']'] ++ rest) (.firstItem stack)
      (CodePoint.ofChar ']' :: rest) :=
    reaches_punctuation .beginArray (by decide) (hs.step_eq (by decide)) _
  have hclose : Reaches (.firstItem stack) (CodePoint.ofChar ']' :: rest)
      (close (.list []) stack) rest :=
    reaches_punctuation .endArray (by decide) (fun _ => rfl) rest
  exact hopen.trans hclose

include hbefore hafter in
/-- The items of a list take the decoder to its end. -/
theorem reaches_items {items : List (Datum α)} {texts : List Text}
    (h : List.Forall₂ Decodes items texts) (hne : items ≠ []) {s : State α}
    {done : List (Datum α)} {stack : List (Frame α)} (hs : AwaitsValue s (.array done :: stack))
    (rest : Text) :
    Reaches s (before ++ (Code.entriesText before texts ++ (after ++ CodePoint.ofChar ']' :: rest)))
      (close (.list (done.reverse ++ items)) stack) rest := by
  induction h generalizing s done with
  | nil => exact absurd rfl hne
  | @cons item t items texts hitem hitems ih =>
    refine (hbefore.reaches s _).trans ?_
    cases hitems with
    | nil =>
      have hend : EndsNumber (CodePoint.ofChar ']' :: rest) :=
        endsNumber_cons (by decide) (by decide) rest
      have hvalue := hitem s _ _ hs (hafter.endsNumber hend)
      have hclose : Reaches (.afterItem (item :: done) stack) (CodePoint.ofChar ']' :: rest)
          (close (.list (item :: done).reverse) stack) rest :=
        reaches_punctuation .endArray (by decide) (fun _ => rfl) rest
      rw [List.reverse_cons] at hclose
      rw [Code.entriesText_singleton]
      exact (hvalue.trans (hafter.reaches _ _)).trans hclose
    | @cons next u items texts hnext hothers =>
      let left := before ++ (Code.entriesText before (u :: texts) ++
        (after ++ CodePoint.ofChar ']' :: rest))
      have hend : EndsNumber (CodePoint.ofChar ',' :: left) :=
        endsNumber_cons (by decide) (by decide) left
      have hothers := fun comma =>
        ih (List.cons_ne_nil next items) (.item comma (item :: done) stack)
      have hcomma := reaches_comma (s := .afterItem (item :: done) stack) (fun _ => rfl) hothers
      have hvalue := hitem s _ _ hs hend
      have hall := hvalue.trans hcomma
      rw [List.reverse_cons, List.append_assoc, List.singleton_append] at hall
      rw [Code.entriesText_cons_cons, List.append_assoc, List.cons_append, List.append_assoc]
      exact hall

include hbefore hafter in
/-- **A list decodes** when its items do. -/
theorem Decodes.list {items : List (Datum α)} {texts : List Text}
    (h : List.Forall₂ Decodes items texts) (hne : items ≠ []) :
    Decodes (.list items) (CodePoint.ofChar '[' ::
      (before ++ (Code.entriesText before texts ++ (after ++ [CodePoint.ofChar ']'])))) := by
  intro s stack rest hs _
  let inner := before ++ (Code.entriesText before texts ++ (after ++ CodePoint.ofChar ']' :: rest))
  have hopen : Reaches s (CodePoint.ofChar '[' :: inner) (.firstItem stack) inner :=
    reaches_punctuation .beginArray (by decide) (hs.step_eq (by decide)) inner
  have hitems := reaches_items hbefore hafter h hne (.firstItem stack) rest
  have hall := hopen.trans hitems
  simp only [List.cons_append, List.append_assoc, List.nil_append]
  exact hall

/-! ### Mappings -/

/-- **A text decodes to an entry of a mapping**: a name, a colon, blanks and a value. -/
inductive DecodesEntry : DatumKey × Datum α → Text → Prop where
  | intro {name gap t : Text} {value : Datum α} (hname : name.Unpaired) (hgap : Gap gap)
      (h : Decodes value t) : DecodesEntry (.text name, value)
        (name.quoted ++ CodePoint.ofChar ':' :: (gap ++ t))

theorem putEntry_of_not_mem {name : Text} (value : Datum α) {entries : List (DatumKey × Datum α)}
    (h : .text name ∉ entries.map (·.1)) :
    Datum.putEntry (.text name) value entries = entries ++ [(.text name, value)] := by
  induction entries with
  | nil => rfl
  | cons entry entries ih =>
    obtain ⟨k, v⟩ := entry
    rw [List.map_cons, List.mem_cons, not_or] at h
    have hk : k.same (.text name) = false := by
      have hne : k ≠ .text name := Ne.symm h.1
      cases k <;> simp_all [DatumKey.same, DatumKey.number?]
    rw [Datum.putEntry, hk, if_neg Bool.false_ne_true, ih h.2, List.cons_append]

/-- **A text enters an entry**: from any place for its name it takes the decoder behind its value,
provided the name is new. -/
def Enters (entry : DatumKey × Datum α) (t : Text) : Prop :=
  ∀ (s : State α) (done : List (DatumKey × Datum α)) (stack : List (Frame α)) (rest : Text),
    AwaitsName s done stack → entry.1 ∉ done.map (·.1) → EndsNumber rest →
      Reaches s (t ++ rest) (.afterMember (done ++ [entry]) stack) rest

theorem enters_of_scans {name nameText gap t : Text} {value : Datum α}
    (hname : ∀ rest, Scans nameText (.text name) rest) (hgap : Gap gap) (hvalue : Decodes value t) :
    Enters (.text name, value) (nameText ++ CodePoint.ofChar ':' :: (gap ++ t)) := by
  intro s done stack rest hs hnew hrest
  have hput := putEntry_of_not_mem value hnew
  have hread := (hname (CodePoint.ofChar ':' :: (gap ++ t ++ rest))).reaches
    fun offset => hs.step_text offset name
  have hcolon : Reaches (.colon done name stack) (CodePoint.ofChar ':' :: (gap ++ t ++ rest))
      (.value (.object done name :: stack)) (gap ++ t ++ rest) :=
    reaches_punctuation .colon (by decide) (fun _ => rfl) _
  have hclose := hvalue _ _ rest (.value (.object done name :: stack)) hrest
  rw [List.append_assoc] at hread hcolon
  have hall := ((hread.trans hcolon).trans (hgap.reaches _ _)).trans hclose
  rw [close, hput] at hall
  rw [List.append_assoc, List.cons_append, List.append_assoc]
  exact hall

theorem DecodesEntry.enters {entry : DatumKey × Datum α} {t : Text} (h : DecodesEntry entry t) :
    Enters entry t := by
  cases h with
  | intro hname hgap hvalue => exact enters_of_scans (scans_quoted hname) hgap hvalue

/-- Braces with nothing between them are the empty mapping. -/
theorem decodes_nil_map :
    Decodes (.map [] : Datum α) [CodePoint.openBrace, CodePoint.closeBrace] := by
  intro s stack rest hs _
  have hopen : Reaches s ([CodePoint.openBrace, CodePoint.closeBrace] ++ rest) (.firstName stack)
      (CodePoint.closeBrace :: rest) :=
    reaches_punctuation .beginObject (by decide) (hs.step_eq (by decide)) _
  have hclose : Reaches (.firstName stack) (CodePoint.closeBrace :: rest)
      (close (.map []) stack) rest :=
    reaches_punctuation .endObject (by decide) (fun _ => rfl) rest
  exact hopen.trans hclose

include hbefore hafter in
/-- The entries of a mapping take the decoder to its end. -/
theorem reaches_entries {entries : List (DatumKey × Datum α)} {texts : List Text}
    (h : List.Forall₂ Enters entries texts) (hne : entries ≠ []) {s : State α}
    {done : List (DatumKey × Datum α)} {stack : List (Frame α)} (hs : AwaitsName s done stack)
    (hnodup : ((done ++ entries).map (·.1)).Nodup) (rest : Text) :
    Reaches s (Code.entriesText before texts ++ (after ++ CodePoint.closeBrace :: rest))
      (close (.map (done ++ entries)) stack) rest := by
  induction h generalizing s done with
  | nil => exact absurd rfl hne
  | @cons entry t entries texts hentry hentries ih =>
    have hnew : entry.1 ∉ done.map (·.1) := by
      rw [List.map_append, List.map_cons] at hnodup
      have hdisjoint := (List.nodup_append'.mp hnodup).2.2
      exact fun hmem => hdisjoint hmem List.mem_cons_self
    cases hentries with
    | nil =>
      have hend : EndsNumber (CodePoint.closeBrace :: rest) :=
        endsNumber_cons (by decide) (by decide) rest
      have hvalue := hentry s done stack _ hs hnew (hafter.endsNumber hend)
      have hclose : Reaches (.afterMember (done ++ [entry]) stack) (CodePoint.closeBrace :: rest)
          (close (.map (done ++ [entry])) stack) rest :=
        reaches_punctuation .endObject (by decide) (fun _ => rfl) rest
      rw [Code.entriesText_singleton]
      exact (hvalue.trans (hafter.reaches _ _)).trans hclose
    | @cons next u entries texts hnext hothers =>
      let left := Code.entriesText before (u :: texts) ++ (after ++ CodePoint.closeBrace :: rest)
      have hend : EndsNumber (CodePoint.ofChar ',' :: (before ++ left)) :=
        endsNumber_cons (by decide) (by decide) _
      have hsplit : done ++ entry :: next :: entries = done ++ [entry] ++ next :: entries := by
        rw [List.append_assoc, List.singleton_append]
      rw [hsplit] at hnodup ⊢
      have hothers := fun comma => (hbefore.reaches _ left).trans
        (ih (List.cons_ne_nil next entries) (.name comma (done ++ [entry]) stack) hnodup)
      have hcomma := reaches_comma (s := .afterMember (done ++ [entry]) stack) (fun _ => rfl) hothers
      have hvalue := hentry s done stack _ hs hnew hend
      rw [Code.entriesText_cons_cons, List.append_assoc, List.cons_append, List.append_assoc]
      exact hvalue.trans hcomma

include hbefore hafter in
/-- **Braces around texts that enter entries** decode to the mapping of these, where no name stands
twice. The gap before the first text may differ from the others. -/
theorem decodes_braces {first : Text} (hfirst : Gap first) {entries : List (DatumKey × Datum α)}
    {texts : List Text} (h : List.Forall₂ Enters entries texts) (hne : entries ≠ [])
    (hnodup : (entries.map (·.1)).Nodup) :
    Decodes (.map entries) (CodePoint.openBrace ::
      (first ++ (Code.entriesText before texts ++ (after ++ [CodePoint.closeBrace])))) := by
  intro s stack rest hs _
  let inner := Code.entriesText before texts ++ (after ++ CodePoint.closeBrace :: rest)
  have hopen : Reaches s (CodePoint.openBrace :: (first ++ inner)) (.firstName stack)
      (first ++ inner) :=
    reaches_punctuation .beginObject (by decide) (hs.step_eq (by decide)) _
  have hentries := reaches_entries hbefore hafter h hne (.firstName stack) hnodup rest
  have hall := (hopen.trans (hfirst.reaches _ _)).trans hentries
  simp only [List.cons_append, List.append_assoc, List.nil_append]
  exact hall

include hbefore hafter in
/-- **A mapping decodes** when its entries do and no name stands twice. -/
theorem Decodes.map {entries : List (DatumKey × Datum α)} {texts : List Text}
    (h : List.Forall₂ DecodesEntry entries texts) (hne : entries ≠ [])
    (hnodup : (entries.map (·.1)).Nodup) :
    Decodes (.map entries) (CodePoint.openBrace ::
      (before ++ (Code.entriesText before texts ++ (after ++ [CodePoint.closeBrace])))) :=
  decodes_braces hbefore hafter hbefore (h.imp fun _ _ hentry => hentry.enters) hne hnodup

end Containers

/-! ### Whole texts -/

theorem run_of_decodes {tree : Datum α} {t : Text} (h : Decodes tree t) :
    run (.value []) (tokens t) = .ok (.done tree) := by
  have hend : EndsNumber [] := fun c hc => by cases hc
  obtain ⟨offset, hrun⟩ := h (.value []) [] [] (.value []) hend 0
  rw [List.append_nil] at hrun
  unfold tokens
  rw [hrun, tokensFrom]
  rfl

/-- No token begins with a byte order mark. -/
theorem lexeme_byteOrderMark (offset : Nat) (rest : Text) :
    lexeme offset byteOrderMark rest = ⟨.junk, 1⟩ := by
  have hmark : punctuation? byteOrderMark = none := by decide
  have hquote : byteOrderMark ≠ CodePoint.doubleQuote := by decide
  have hword : wordLexeme? (byteOrderMark :: rest) = none := rfl
  have hnumber : numberLexeme? (byteOrderMark :: rest) = none := rfl
  unfold lexeme
  rw [hmark, if_neg hquote, hword, hnumber]
  rfl

/-- **A text that decodes to a tree is decoded to it.** -/
theorem decode_of_decodes {tree : Datum α} {t : Text} (h : Decodes tree t) :
    decode t = .ok tree := by
  have hrun := run_of_decodes h
  have hbom : t.head? ≠ some byteOrderMark := by
    intro hhead
    obtain ⟨rest, rfl⟩ := List.head?_eq_some_iff.mp hhead
    have htokens : tokens (byteOrderMark :: rest) = [⟨0, .junk⟩] := by
      have hblank : isBlank byteOrderMark = false := by decide
      unfold tokens
      rw [tokensFrom]
      simp only [hblank, Bool.false_eq_true, if_false, lexeme_byteOrderMark, Token.isLast, if_true]
    rw [htokens] at hrun
    cases hrun
  unfold decode
  rw [if_neg hbom, hrun]

end Phrasebook.Json
