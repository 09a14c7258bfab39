import Phrasebook.Document.Basic
import Phrasebook.Proofs.Document.Comments
import Phrasebook.Proofs.Json.Decode
import Phrasebook.Proofs.Script.Layout

/-! # Trees written as script and read as documents

The script of a tree of plain data is itself a document, and decoding it gives the tree back
(`decode_toCode_ofDatum`). Script that stands inside other script is indented, so what is shown of
the script of a tree is that it decodes at any indentation (`Writes`); lists and mappings write their
trees when their items do. -/

namespace Phrasebook

variable {α : Type}

/-! ### The trees -/

/-- **A tree that documents can hold**: whole numbers are short enough to be converted, no text or
name holds a surrogate pair as two code points, and the names of a mapping are different texts. -/
inductive Datum.Storable : Datum α → Prop where
  | null : Storable .null
  | bool (b : Bool) : Storable (.bool b)
  | int {n : Int} (h : (Nat.toDigits 10 n.natAbs).length ≤ Crash.digitLimit) :
      Storable (.number (.int n))
  | text {t : Text} (h : t.Unpaired) : Storable (.text t)
  | list {items : List (Datum α)} (h : ∀ item ∈ items, Storable item) : Storable (.list items)
  | map {entries : List (DatumKey × Datum α)}
      (hnames : ∀ entry ∈ entries, ∃ name : Text, entry.1 = .text name ∧ name.Unpaired)
      (hdistinct : (entries.map (·.1)).Nodup) (h : ∀ entry ∈ entries, Storable entry.2) :
      Storable (.map entries)

/-! ### What is written -/

namespace Document

/-- **Script writes a tree**: at any indentation it decodes to the tree and holds no comment. -/
def Writes (tree : Datum α) (t : Text) : Prop :=
  ∀ pad : Text, Spaces pad → Json.Decodes tree (Code.padAfterBreaks pad t) ∧
    Comments.Uncommented (Code.padAfterBreaks pad t)

theorem writes_of_unbroken {tree : Datum α} {t : Text} (h : Unbroken t)
    (hdecodes : Json.Decodes tree t) (huncommented : Comments.Uncommented t) : Writes tree t := by
  intro pad _
  rw [h.padAfterBreaks]
  exact ⟨hdecodes, huncommented⟩

/-! #### Scalars -/

theorem Writes.piece {tree : Datum α} {t : Text} (h : Writes tree t) :
    Writes tree (Code.mk [t]).render := by
  have hrender : (Code.mk [t]).render = t := List.append_nil t
  rw [hrender]
  exact h

theorem writes_null : Writes (.null : Datum α) "null" :=
  writes_of_unbroken (by decide) Json.decodes_null (Comments.uncommented_of_forall (by decide))

theorem writes_bool (b : Bool) : Writes (.bool b : Datum α) (if b then "true" else "false") := by
  have hdecodes := Json.decodes_bool (α := α) b
  cases b with
  | true =>
    exact writes_of_unbroken (by decide) hdecodes (Comments.uncommented_of_forall (by decide))
  | false =>
    exact writes_of_unbroken (by decide) hdecodes (Comments.uncommented_of_forall (by decide))

theorem writes_ofInt {n : Int} (h : (Nat.toDigits 10 n.natAbs).length ≤ Crash.digitLimit) :
    Writes (.number (.int n) : Datum α) (Numeral.ofInt n) := by
  have hpoint : ∀ c ∈ Numeral.ofInt n, c.isDigit = true ∨ c = CodePoint.ofChar '-' := by
    obtain ⟨sign, hsign, htext, -⟩ := Json.ofInt_eq n
    rw [htext]
    refine List.forall_mem_append.mpr ⟨?_, fun c hc => Or.inl (Json.isDigit_of_mem_ofNat hc)⟩
    rcases hsign with rfl | rfl
    · exact List.forall_mem_nil _
    · exact List.forall_mem_singleton.mpr (Or.inr rfl)
  have hne : ∀ c ∈ Numeral.ofInt n, ∀ d : CodePoint, d.isDigit = false →
      d ≠ CodePoint.ofChar '-' → c ≠ d := by
    rintro c hc d hd hsign rfl
    rcases hpoint c hc with hdigit | hminus
    · rw [hd] at hdigit
      cases hdigit
    · exact hsign hminus
  refine writes_of_unbroken ?_ (Json.decodes_ofInt h) (Comments.uncommented_of_forall fun c hc => ?_)
  · exact fun hmem => hne _ hmem CodePoint.lf (by decide) (by decide) rfl
  · exact ⟨hne c hc _ (by decide) (by decide), hne c hc _ (by decide) (by decide)⟩

theorem writes_quoted {t : Text} (h : t.Unpaired) : Writes (.text t : Datum α) t.quoted :=
  writes_of_unbroken (unbroken_quoted t) (Json.decodes_quoted h) (Comments.uncommented_quoted t)

/-! #### Lists and mappings -/

section Containers
variable {pad : Text} (hpad : Spaces pad)

theorem uncommented_of_spaces {t : Text} (h : Spaces t) : Comments.Uncommented t := by
  refine Comments.uncommented_of_forall fun c hc => ?_
  rw [h c hc]
  decide

theorem gap_lf_cons {t : Text} (h : Spaces t) : Json.Gap (CodePoint.lf :: t) := by
  refine List.forall_mem_cons.mpr ⟨by decide, fun c hc => ?_⟩
  rw [h c hc]
  decide

theorem uncommented_lf_cons {t : Text} (h : Spaces t) : Comments.Uncommented (CodePoint.lf :: t) :=
  Comments.Uncommented.append (t := [CodePoint.lf]) (Comments.uncommented_of_forall (by decide))
    (uncommented_of_spaces h)

include hpad in
/-- The entries of an indented literal hold no comment when each of them holds none. -/
theorem uncommented_entries {opening closing : CodePoint}
    (hbrackets : Comments.Uncommented [opening] ∧ Comments.Uncommented [closing])
    {texts : List Text} (h : ∀ t ∈ texts, Comments.Uncommented t) :
    Comments.Uncommented (opening :: (Code.entryGap pad ++
      (Code.entriesText (Code.entryGap pad) texts ++ (Code.lastGap pad ++ [closing])))) := by
  have hgap : Comments.Uncommented (Code.entryGap pad) :=
    uncommented_lf_cons (hpad.append_indentUnit)
  have hlast : Comments.Uncommented (Code.lastGap pad) := uncommented_lf_cons hpad
  have hcomma : Comments.Uncommented [CodePoint.ofChar ','] :=
    Comments.uncommented_of_forall (by decide)
  have hentries := Comments.uncommented_join (hcomma.append hgap) h
  exact hbrackets.1.append (hgap.append (hentries.append (hlast.append hbrackets.2)))

/-- **An array literal writes a list** when the script of its items writes the items. -/
theorem writes_arrayScript {items : List (Datum α)} {fragments : List Fragment}
    (h : List.Forall₂ (fun f item => Writes item f.render) fragments items) :
    Writes (.list items) (Value.arrayScript fragments).render := by
  intro pad hpad
  have hentry : ∀ (f : Fragment) (item : Datum α), Writes item f.render →
      Comments.Uncommented (Code.padAfterBreaks pad (Code.indent f).render) ∧
        Json.Decodes item (Code.padAfterBreaks pad (Code.indent f).render) := by
    intro f item hf
    rw [Code.padAfterBreaks_indent]
    exact (hf _ (hpad.append_indentUnit)).symm
  have htexts : List.Forall₂ (fun t item => Comments.Uncommented t ∧ Json.Decodes item t)
      ((fragments.map fun f => (Code.indent f).render).map (Code.padAfterBreaks pad)) items := by
    rw [List.map_map, List.forall₂_map_left_iff]
    exact h.imp hentry
  obtain ⟨huncommented, hdecodes⟩ := (List.forall₂_and_left _ _).mp htexts
  cases h with
  | nil =>
    have hbrackets : Comments.Uncommented [CodePoint.ofChar '[', CodePoint.ofChar ']'] :=
      Comments.uncommented_of_forall (by decide)
    exact ⟨Json.decodes_nil_list, hbrackets⟩
  | @cons f item fragments items hf hfs =>
    have hgap := gap_lf_cons (hpad.append_indentUnit)
    have hlast := gap_lf_cons hpad
    rw [Code.render_arrayScript, Code.padAfterBreaks_entries (by decide) (by decide)]
    refine ⟨Json.Decodes.list hgap hlast hdecodes.flip (List.cons_ne_nil _ _), ?_⟩
    exact uncommented_entries hpad ⟨Comments.uncommented_of_forall (by decide),
      Comments.uncommented_of_forall (by decide)⟩ huncommented

/-- A property writes an entry of a mapping. -/
inductive WritesEntry : Code.PropertyName × Fragment → DatumKey × Datum α → Prop where
  | intro {name : Text} {f : Fragment} {value : Datum α} (hname : name.Unpaired)
      (h : Writes value f.render) : WritesEntry (.text name, f) (.text name, value)

include hpad in
theorem WritesEntry.padAfterBreaks {p : Code.PropertyName × Fragment} {entry : DatumKey × Datum α}
    (h : WritesEntry p entry) :
    Comments.Uncommented (Code.padAfterBreaks pad (Code.property [] p.1 p.2).render) ∧
      Json.DecodesEntry entry (Code.padAfterBreaks pad (Code.property [] p.1 p.2).render) := by
  cases h with
  | @intro name f value hname h =>
    obtain ⟨hdecodes, huncommented⟩ := h _ (hpad.append_indentUnit)
    have hcolon : Comments.Uncommented [CodePoint.ofChar ':', CodePoint.space] :=
      Comments.uncommented_of_forall (by decide)
    have hgap : Json.Gap [CodePoint.space] := List.forall_mem_singleton.mpr rfl
    rw [Script.padAfterBreaks_property rfl]
    refine ⟨(Comments.uncommented_quoted name).append (hcolon.append huncommented), ?_⟩
    exact .intro hname hgap hdecodes

/-- **An object literal writes a mapping** when its properties write the entries. -/
theorem writes_object {entries : List (DatumKey × Datum α)}
    {properties : List (Code.PropertyName × Fragment)}
    (h : List.Forall₂ WritesEntry properties entries) (hdistinct : (entries.map (·.1)).Nodup) :
    Writes (.map entries) (Code.object properties).render := by
  intro pad hpad
  have htexts : List.Forall₂ (fun t entry => Comments.Uncommented t ∧ Json.DecodesEntry entry t)
      ((properties.map fun p => (Code.property [] p.1 p.2).render).map (Code.padAfterBreaks pad))
        entries := by
    rw [List.map_map, List.forall₂_map_left_iff]
    exact h.imp fun _ _ hp => hp.padAfterBreaks hpad
  obtain ⟨huncommented, hdecodes⟩ := (List.forall₂_and_left _ _).mp htexts
  cases h with
  | nil =>
    have hbraces : Comments.Uncommented [CodePoint.openBrace, CodePoint.closeBrace] :=
      Comments.uncommented_of_forall (by decide)
    exact ⟨Json.decodes_nil_map, hbraces⟩
  | @cons p entry properties entries hp hps =>
    have hgap := gap_lf_cons (hpad.append_indentUnit)
    have hlast := gap_lf_cons hpad
    rw [Script.render_object, Code.padAfterBreaks_entries (by decide) (by decide)]
    refine ⟨Json.Decodes.map hgap hlast hdecodes.flip (List.cons_ne_nil _ _) hdistinct, ?_⟩
    exact uncommented_entries hpad ⟨Comments.uncommented_of_forall (by decide),
      Comments.uncommented_of_forall (by decide)⟩ huncommented

end Containers

/-! ### Trees -/

section Trees
variable (convert : α → Except Value.Unconvertible Value)

/-- A tree is converted to a value whose script writes it. -/
def Written (tree : Datum α) : Prop :=
  ∃ v code, Value.ofDatum convert tree = .ok v ∧ v.toCode [] = .ok code ∧ Writes tree code.render

variable {convert}

theorem written_items {items : List (Datum α)} (h : ∀ item ∈ items, Written convert item) :
    ∃ vs fragments, Value.ofItems convert items = .ok vs ∧
      Value.stringifyItems [] vs = .ok fragments ∧
        List.Forall₂ (fun f item => Writes item f.render) fragments items := by
  induction items with
  | nil => exact ⟨[], [], rfl, rfl, .nil⟩
  | cons item items ih =>
    obtain ⟨⟨v, code, hv, hcode, hwrites⟩, hitems⟩ := List.forall_mem_cons.mp h
    obtain ⟨vs, fragments, hvs, hfragments, hrest⟩ := ih hitems
    refine ⟨v :: vs, .code code :: fragments, ?_, ?_, .cons hwrites hrest⟩
    · rw [Value.ofItems, hv, hvs]
      rfl
    · rw [Value.stringifyItems, hcode, hfragments]
      rfl

theorem written_entries {entries : List (DatumKey × Datum α)}
    (hnames : ∀ entry ∈ entries, ∃ name : Text, entry.1 = .text name ∧ name.Unpaired)
    (h : ∀ entry ∈ entries, Written convert entry.2) :
    ∃ vs properties, Value.ofEntries convert entries = .ok vs ∧
      Value.stringifyEntries [] vs = .ok properties ∧
        List.Forall₂ WritesEntry properties entries := by
  induction entries with
  | nil => exact ⟨[], [], rfl, rfl, .nil⟩
  | cons entry entries ih =>
    obtain ⟨⟨name, hname, hunpaired⟩, hnames⟩ := List.forall_mem_cons.mp hnames
    obtain ⟨⟨v, code, hv, hcode, hwrites⟩, hentries⟩ := List.forall_mem_cons.mp h
    obtain ⟨vs, properties, hvs, hproperties, hrest⟩ := ih hnames hentries
    obtain ⟨key, value⟩ := entry
    cases hname
    refine ⟨(.text name, v) :: vs, (.text name, .code code) :: properties, ?_, ?_,
      .cons (.intro hunpaired hwrites) hrest⟩
    · rw [Value.ofEntries, hv, hvs]
      rfl
    · rw [Value.stringifyEntries, hcode, hproperties]
      rfl

variable (convert) in
theorem Datum.Storable.written {tree : Datum α} (h : tree.Storable) : Written convert tree := by
  induction h with
  | null => exact ⟨.null, _, by rw [Value.ofDatum], by rw [Value.toCode], writes_null.piece⟩
  | bool b => exact ⟨.bool b, _, by rw [Value.ofDatum], by rw [Value.toCode], (writes_bool b).piece⟩
  | @int n h =>
    have hwrite : Value.numberScript (.int n) = .ok (Numeral.ofInt n) := if_pos h
    refine ⟨.number (.int n), ⟨[Numeral.ofInt n]⟩, by rw [Value.ofDatum], ?_, (writes_ofInt h).piece⟩
    rw [Value.toCode, hwrite]
    rfl
  | text h => exact ⟨.text _, _, by rw [Value.ofDatum], by rw [Value.toCode], (writes_quoted h).piece⟩
  | list _ ih =>
    obtain ⟨vs, fragments, hvs, hfragments, hwrites⟩ := written_items ih
    refine ⟨.array vs, Value.arrayScript fragments, ?_, ?_, writes_arrayScript hwrites⟩
    · rw [Value.ofDatum, hvs]
      rfl
    · rw [Value.toCode, hfragments]
      rfl
  | map hnames hdistinct _ ih =>
    obtain ⟨vs, properties, hvs, hproperties, hwrites⟩ := written_entries hnames ih
    refine ⟨.object vs, Code.object properties, ?_, ?_, writes_object hwrites hdistinct⟩
    · rw [Value.ofDatum, hvs]
      rfl
    · rw [Value.toCode, hproperties]
      rfl

end Trees

/-- **The script of a tree decodes to the tree**, the order of the names included. -/
theorem decode_toCode_ofDatum (convert : α → Except Value.Unconvertible Value) {tree : Datum α}
    (h : tree.Storable) (source : Text) :
    ∃ v code, Value.ofDatum convert tree = .ok v ∧ v.toCode [] = .ok code ∧
      Document.decode code.render source = .ok tree := by
  obtain ⟨v, code, hv, hcode, hwrites⟩ := Datum.Storable.written convert h
  obtain ⟨hdecodes, huncommented⟩ := hwrites [] (List.forall_mem_nil _)
  rw [Code.padAfterBreaks_nil] at hdecodes huncommented
  refine ⟨v, code, hv, hcode, ?_⟩
  unfold Document.decode
  simp only [huncommented.blank_eq, Json.decode_of_decodes hdecodes]

theorem decode_toCode_ofDatum_comments :
    let tree : Datum Foreign := .map [(.text "a // b", .list [.text "/* \" \\ \n", .map [], .list []]),
      (.text [CodePoint.ofNat 0xD800], .number (.int (-120))), (.text "", .list [.null, .bool true])]
    tree.Storable ∧ ∃ v code,
      Value.ofDatum (fun kind => .error (.type kind.name)) tree = .ok v ∧
        v.toCode [] = .ok code ∧ Document.decode code.render "memory" = .ok tree := by
  intro tree
  have hstorable : tree.Storable := by
    refine .map ?_ (by decide) ?_
    · simp only [List.forall_mem_cons]
      exact ⟨⟨_, rfl, by decide⟩, ⟨_, rfl, by decide⟩, ⟨_, rfl, by decide⟩, List.forall_mem_nil _⟩
    · simp only [List.forall_mem_cons]
      refine ⟨.list ?_, .int (by decide), .list ?_, List.forall_mem_nil _⟩
      · simp only [List.forall_mem_cons]
        exact ⟨.text (by decide), .map (List.forall_mem_nil _) List.nodup_nil (List.forall_mem_nil _),
          .list (List.forall_mem_nil _), List.forall_mem_nil _⟩
      · simp only [List.forall_mem_cons]
        exact ⟨.null, .bool true, List.forall_mem_nil _⟩
  exact ⟨hstorable, decode_toCode_ofDatum _ hstorable "memory"⟩

end Document

end Phrasebook
