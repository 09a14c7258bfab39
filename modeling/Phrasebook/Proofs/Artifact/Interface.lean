import Phrasebook.Artifact.Modules
import Phrasebook.Proofs.Artifact.ParameterTypes
import Phrasebook.Proofs.Artifact.Table
import Phrasebook.Proofs.Schema.Holdings
import Phrasebook.Proofs.Script.Unbroken
import Phrasebook.Proofs.Template.Parameters

/-! # The typed interface of the keys

What the declaration module declares of the parameters of a key is read back from its text, from the
type of the leaf and from the entry of the table of parameters (`readType`, `readEntry`). The script
of each locale uses just these parameters, each in the way its type tells
(`Catalogue.honoured_merge`). -/

namespace Phrasebook

namespace Declarations

/-! ### Reading declarations -/

/-- **What is declared of the parameters of a key**: that there are none, or their names with their
types. -/
abbrev Declared := Option (List (Text × Text))

/-- The name and the type of a parameter. -/
def readField (t : Text) : Option (Text × Text) :=
  match Text.split (CodePoint.ofChar ':') t with
  | [name, type] => do
    let name ← Text.dropBeginning? " " name
    let type ← Text.dropBeginning? " " type
    return (name, type)
  | _ => none

/-- The parameters of an object type on one line. -/
def readFields (t : Text) : Option (List (Text × Text)) := do
  let inner ← Text.between? [CodePoint.openBrace] [CodePoint.space, CodePoint.closeBrace] t
  (Text.split (CodePoint.ofChar ',') inner).mapM readField

/-- What is declared by a text that declares no parameters, or by an object type between a beginning
and an end. -/
def readDeclared (none beginning ending t : Text) : Option Declared :=
  if t = none then some .none
  else ((Text.between? beginning ending t).bind readFields).map some

/-- **What the type of a leaf declares.** -/
def readType (showing : Showing) (t : Text) : Option Declared :=
  match showing with
  | .translations => readDeclared "string" "(params: " ") => string" t
  | .snippets => readDeclared "Snippet<[]>" "Snippet<[params: " "]>" t

/-- **The key of an entry of the table** of parameters, and what it declares. -/
def readEntry (t : Text) : Option (Text × Declared) :=
  (Script.string? t).bind fun (key, rest) =>
    (readDeclared ": []" ": [params: " "]" rest).map fun fields => (key, fields)

/-! ### What is read -/

/-- What is declared of the parameters of a signature. -/
def declared (showing : Showing) (s : Signature) : Declared :=
  if s.isEmpty then none
  else some (s.parameters.map fun p => (p.name, parameterType showing p.isFormatter))

/-- All parameters of a signature have well-formed names. -/
def WellNamed (s : Signature) : Prop := ∀ p ∈ s.parameters, Template.isName p.name

/-- The piece of an object type that declares a parameter. -/
def piece (showing : Showing) (p : Parameter) : Text :=
  CodePoint.space :: (p.name ++ ": " ++ parameterType showing p.isFormatter)

theorem not_mem_parameterType (showing : Showing) (isFormatter : Bool) :
    CodePoint.ofChar ',' ∉ parameterType showing isFormatter ∧
      CodePoint.ofChar ':' ∉ parameterType showing isFormatter ∧
        CodePoint.lf ∉ parameterType showing isFormatter := by
  cases showing <;> cases isFormatter <;> decide

theorem readField_piece (showing : Showing) {p : Parameter} (h : Template.isName p.name) :
    readField (piece showing p) = some (p.name, parameterType showing p.isFormatter) := by
  have hname : CodePoint.ofChar ':' ∉ CodePoint.space :: p.name := by
    rw [List.mem_cons, not_or]
    exact ⟨by decide, Template.not_mem_of_isName h (by decide)⟩
  have htype : CodePoint.ofChar ':' ∉
      CodePoint.space :: parameterType showing p.isFormatter := by
    rw [List.mem_cons, not_or]
    exact ⟨by decide, (not_mem_parameterType showing p.isFormatter).2.1⟩
  have hpiece : piece showing p = (CodePoint.space :: p.name) ++ CodePoint.ofChar ':' ::
      (CodePoint.space :: parameterType showing p.isFormatter) := by
    unfold piece
    rw [List.append_assoc]
    rfl
  have hspace : ∀ t : Text, Text.dropBeginning? " " (CodePoint.space :: t) = some t :=
    fun t => Text.dropBeginning?_append [CodePoint.space] t
  unfold readField
  rw [hpiece, Text.split_append hname, Text.split_of_not_mem htype]
  simp only [hspace]
  rfl

theorem comma_not_mem_piece (showing : Showing) {p : Parameter} (h : Template.isName p.name) :
    CodePoint.ofChar ',' ∉ piece showing p := by
  unfold piece
  simp only [List.mem_cons, List.mem_append, not_or]
  exact ⟨by decide, ⟨Template.not_mem_of_isName h (by decide), by decide⟩,
    (not_mem_parameterType showing p.isFormatter).1⟩

theorem propertyName_of_isName {name : Text} (h : Template.isName name) :
    propertyName name = name := by
  unfold propertyName isBare
  rw [h, Bool.true_or, if_pos rfl]

theorem render_parameters (showing : Showing) {s : Signature} (hne : s.parameters ≠ [])
    (h : WellNamed s) : (parameters showing s).render =
      [CodePoint.openBrace] ++ Text.join [CodePoint.ofChar ','] (s.parameters.map (piece showing)) ++
        [CodePoint.space, CodePoint.closeBrace] := by
  obtain ⟨p, rest, hs⟩ := List.exists_cons_of_ne_nil hne
  have hpieces : s.parameters.map (piece showing) =
      (s.parameters.map (ObjectType.propertyText showing)).map (CodePoint.space :: ·) := by
    rw [List.map_map]
    refine List.map_congr_left fun p hp => ?_
    rw [Function.comp_apply, ObjectType.propertyText, propertyName_of_isName (h p hp)]
    rfl
  rw [ObjectType.render_parameters_eq, hpieces, hs, List.map_cons, ← Text.space_cons_join]
  rfl

theorem readFields_parameters (showing : Showing) {s : Signature} (hne : s.parameters ≠ [])
    (h : WellNamed s) : readFields (parameters showing s).render =
      some (s.parameters.map fun p => (p.name, parameterType showing p.isFormatter)) := by
  have hpieces : s.parameters.map (piece showing) ≠ [] := fun hnil => hne (List.map_eq_nil_iff.mp hnil)
  have hcommas : ∀ t ∈ s.parameters.map (piece showing), CodePoint.ofChar ',' ∉ t := by
    intro t ht
    obtain ⟨p, hp, rfl⟩ := List.mem_map.mp ht
    exact comma_not_mem_piece showing (h p hp)
  unfold readFields
  rw [render_parameters showing hne h, Text.between?_append]
  simp only [bind, Option.bind_some]
  rw [Text.split_join hpieces hcommas]
  refine mapM_eq_some ?_
  rw [List.forall₂_map_left_iff, List.forall₂_map_right_iff, List.forall₂_same]
  exact fun p hp => readField_piece showing (h p hp)

/-- **What a signature declares is read back.** -/
theorem readDeclared_parameters {none beginning ending : Text}
    (hne : ∀ t, beginning ++ t ++ ending ≠ none) (showing : Showing) {s : Signature}
    (h : WellNamed s) : readDeclared none beginning ending
      (if s.isEmpty then none else beginning ++ (parameters showing s).render ++ ending) =
        some (declared showing s) := by
  unfold readDeclared declared
  cases hs : s.isEmpty with
  | true => rw [if_pos rfl, if_pos rfl, if_pos rfl]
  | false =>
    have hparameters : s.parameters ≠ [] := by
      intro hnil
      unfold Signature.isEmpty at hs
      rw [hnil] at hs
      cases hs
    rw [if_neg Bool.false_ne_true, if_neg Bool.false_ne_true, if_neg (hne _),
      Text.between?_append, Option.bind_some, readFields_parameters showing hparameters h,
      Option.map_some]

theorem render_enclosed (beginning ending : Text) (inner : Code) :
    (Code.concat [Fragment.plain beginning, inner, Fragment.plain ending]).render =
      beginning ++ inner.render ++ ending := by
  rw [Code.render_concat]
  simp only [List.map_cons, List.map_nil, List.flatten_cons, List.flatten_nil, List.append_nil,
    Fragment.render_plain, Fragment.render_code, List.append_assoc]

theorem readType_leafType (showing : Showing) {s : Signature} (h : WellNamed s) :
    readType showing (leafType showing s).render = some (declared showing s) := by
  cases showing with
  | translations =>
    have hne : ∀ t : Text, "(params: " ++ t ++ ") => string" ≠ Text.ofString "string" := nofun
    rw [← readDeclared_parameters hne .translations h]
    unfold leafType
    cases s.isEmpty with
    | true => rfl
    | false => exact congrArg (readType .translations) (render_enclosed _ _ _)
  | snippets =>
    have hne : ∀ t : Text, "Snippet<[params: " ++ t ++ "]>" ≠ Text.ofString "Snippet<[]>" := nofun
    rw [← readDeclared_parameters hne .snippets h]
    unfold leafType
    cases s.isEmpty with
    | true => rfl
    | false => exact congrArg (readType .snippets) (render_enclosed _ _ _)

theorem render_tableEntry (showing : Showing) (e : Entry) : (tableEntry showing e).render =
    e.key.quoted ++ if e.signature.isEmpty then Text.ofString ": []" else
      ": [params: " ++ (parameters showing e.signature).render ++ "]" := by
  unfold tableEntry
  split_ifs <;> rw [Fragment.render_code, Code.render_concat] <;> simp

theorem exists_colon_cons (showing : Showing) (e : Entry) :
    ∃ rest, (if e.signature.isEmpty then Text.ofString ": []" else
      ": [params: " ++ (parameters showing e.signature).render ++ "]") =
        CodePoint.ofChar ':' :: rest := by
  split_ifs <;> exact ⟨_, rfl⟩

/-- **The key of an entry of the table** of parameters. -/
def readKey (t : Text) : Option Text := (Script.string? t).map Prod.fst

theorem readKey_tableEntry (showing : Showing) (e : Entry) :
    readKey (tableEntry showing e).render = some e.key := by
  obtain ⟨rest, hrest⟩ := exists_colon_cons showing e
  unfold readKey
  rw [render_tableEntry, hrest, Script.string?_quoted e.key (by decide)]
  rfl

theorem readEntry_tableEntry (showing : Showing) {e : Entry} (h : WellNamed e.signature) :
    readEntry (tableEntry showing e).render = some (e.key, declared showing e.signature) := by
  have hne : ∀ t : Text, ": [params: " ++ t ++ "]" ≠ Text.ofString ": []" := nofun
  obtain ⟨rest, hrest⟩ := exists_colon_cons showing e
  have hread := readDeclared_parameters hne showing h
  rw [hrest] at hread
  unfold readEntry
  rw [render_tableEntry, hrest, Script.string?_quoted e.key (by decide), Option.bind_some]
  simp only [hread, Option.map_some]

/-! ### The table -/

section Table
variable {c : Catalogue} {documents : List Document}
  (h : c.Contents Template.compiler (translationsOf documents))
include h

theorem wellNamed_signature {entry : Text × Entry} (hentry : entry ∈ c.entries) :
    WellNamed entry.2.signature := by
  have hpath := (h.paths entry.2.path).mp (Catalogue.mem_ledger_keys.mpr ⟨_, hentry, rfl⟩)
  obtain ⟨t, ht, hsame⟩ := hpath
  obtain ⟨compiled, hcompiled, hs⟩ := (h.records _ hentry).signature t ht hsame
  rw [← hs]
  exact Template.isName_of_mem_signature (Template.compiler_eq_ok.mp hcompiled)

theorem entry?_of_mem {key : Text} {e : Entry} (hmem : (key, e) ∈ c.entries) :
    c.entry? e.path = some e := by
  have hkey : key = e.path.key := h.represents.keyed _ hmem
  unfold Catalogue.entry?
  rw [← hkey]
  exact OrderedMap.get?_of_mem h.represents.nodup hmem

/-- Whether an entry is shown. -/
def Shown (showing : Showing) (e : Entry) : Prop :=
  showing = .translations ∨ e.signature.hasFormatters = true

/-- **The table is read back** as a map that declares for each key that is shown the parameters of
its signature. -/
theorem exists_table (showing : Showing) : ∃ table : OrderedMap Text Declared,
    (walk c showing).table.map (fun f => readEntry f.render) = table.map some ∧
      table.keys.Nodup ∧ ∀ key e, (key, e) ∈ c.entries → Shown showing e →
        table.get? key = some (declared showing e.signature) := by
  have hentry : ∀ p ∈ c.arena.leaves, ∃ e, c.entry? p = some e ∧ e.path = p := by
    intro p hp
    exact h.exists_entry (h.find?_leaf.mp (h.rooted.mem_leaves.mp hp))
  let shown := c.arena.leaves.filter (c.isShown showing)
  let table : OrderedMap Text Declared := shown.filterMap fun p =>
    (c.entry? p).map fun e => (e.key, declared showing e.signature)
  have hkeys : table.keys = shown.map KeyPath.key := by
    show (shown.filterMap _).map _ = _
    rw [List.map_filterMap, ← List.filterMap_eq_map]
    refine List.filterMap_congr fun p hp => ?_
    obtain ⟨e, he, rfl⟩ := hentry p (List.mem_of_mem_filter hp)
    rw [he]
    rfl
  have hnodup : table.keys.Nodup := by
    rw [hkeys]
    exact h.nodup_keys.sublist (List.filter_sublist.map _)
  refine ⟨table, ?_, hnodup, ?_⟩
  · show _ = (shown.filterMap _).map some
    rw [table_walk h.rooted, List.map_filterMap, List.map_filterMap]
    refine List.filterMap_congr fun p hp => ?_
    cases he : c.entry? p with
    | none => rfl
    | some e =>
      have hread := readEntry_tableEntry showing
        (wellNamed_signature h (OrderedMap.mem_of_get? he))
      exact congrArg some hread
  · intro key e hmem hshown
    have hkey : key = e.path.key := h.represents.keyed _ hmem
    have hget := entry?_of_mem h hmem
    have hleaf : e.path ∈ c.arena.leaves := h.rooted.mem_leaves.mpr
      (h.find?_leaf.mpr (h.mem_keys.mp (Catalogue.mem_ledger_keys.mpr ⟨_, hmem, rfl⟩)))
    have hwanted : c.isShown showing e.path = true := by
      cases showing with
      | translations => rfl
      | snippets =>
        unfold Catalogue.isShown Catalogue.hasFormatters
        rw [hget]
        exact hshown.resolve_left nofun
    refine OrderedMap.get?_of_mem hnodup (List.mem_filterMap.mpr ⟨e.path, ?_, ?_⟩)
    · exact List.mem_filter.mpr ⟨hleaf, hwanted⟩
    · rw [hget, hkey]
      rfl

end Table

/-! ### Where declarations stand -/

theorem unbroken_tableEntry (showing : Showing) {e : Entry} (h : WellNamed e.signature) :
    Unbroken (tableEntry showing e).render := by
  have hkey := unbroken_quoted e.key
  have hfields : ∀ t ∈ ((e.signature.parameters.map fun p => Fragment.code (Code.concat
      [Fragment.plain (propertyName p.name), Fragment.plain ": ",
        Fragment.plain (parameterType showing p.isFormatter)])).map Fragment.render), Unbroken t := by
    intro t ht
    obtain ⟨f, hf, rfl⟩ := List.mem_map.mp ht
    obtain ⟨p, hp, rfl⟩ := List.mem_map.mp hf
    have hname : Unbroken (propertyName p.name) := by
      rw [propertyName_of_isName (h p hp)]
      exact Template.unbroken_name (h p hp)
    rw [Fragment.render_code, Code.render_concat]
    refine unbroken_flatten ?_
    simp only [List.map_cons, List.map_nil, List.forall_mem_cons]
    exact ⟨hname, by decide, (not_mem_parameterType showing p.isFormatter).2.2,
      List.forall_mem_nil _⟩
  have hparameters : Unbroken (parameters showing e.signature).render := by
    unfold parameters
    rw [render_enclosed, Code.render_join]
    have hopen : Unbroken [CodePoint.openBrace, CodePoint.space] := by decide
    have hclose : Unbroken [CodePoint.space, CodePoint.closeBrace] := by decide
    exact (hopen.append (unbroken_join (by decide) hfields)).append hclose
  unfold tableEntry
  split_ifs
  · rw [Fragment.render_code, Code.render_concat]
    refine unbroken_flatten ?_
    simp only [List.map_cons, List.map_nil, List.forall_mem_cons]
    exact ⟨hkey, by decide, List.forall_mem_nil _⟩
  · rw [Fragment.render_code, Code.render_concat]
    refine unbroken_flatten ?_
    simp only [List.map_cons, List.map_nil, List.forall_mem_cons]
    exact ⟨hkey, by decide, hparameters, by decide, List.forall_mem_nil _⟩

theorem infix_typeLiteral {f : Fragment} {entries : List Fragment} (h : f ∈ entries) :
    f.render <:+: (Modules.typeLiteral entries).render := by
  unfold Modules.typeLiteral
  split
  · cases h
  · have hin : f.render <:+: Text.join (Fragment.plain Code.entryBreak).render
        (entries.map Fragment.render) := Code.infix_join (List.mem_map_of_mem h) _
    rw [render_enclosed, Code.render_join]
    exact (hin.trans (List.suffix_append _ _).isInfix).trans (List.prefix_append _ _).isInfix

theorem infix_typesBody (c : Catalogue) (showing : Showing) (defaultLocale : Text) :
    (Modules.typeLiteral (walk c showing).table).render <:+:
      (Modules.typesBody c defaultLocale).render := by
  have hline : ∀ name, (Modules.typeLiteral (walk c showing).table).render <:+:
      (Modules.exportedType name (Modules.typeLiteral (walk c showing).table)).render :=
    fun name => Code.infix_concat (f := .code (Modules.typeLiteral (walk c showing).table))
      (List.mem_cons_of_mem _ List.mem_cons_self)
  unfold Modules.typesBody Code.lines
  rw [Code.render_join]
  cases showing with
  | translations =>
    refine (hline "KeyMapping").trans
      (Code.infix_join (List.mem_map_of_mem (f := Fragment.render) ?_) _)
    exact List.mem_of_getElem? (i := 14) rfl
  | snippets =>
    refine (hline "SnippetMapping").trans
      (Code.infix_join (List.mem_map_of_mem (f := Fragment.render) ?_) _)
    exact List.mem_of_getElem? (i := 15) rfl

/-- **The entries of the table stand in the declaration module** as they are. -/
theorem infix_typesCode {c : Catalogue} {showing : Showing} {f : Fragment}
    (hf : f ∈ (walk c showing).table) (hline : Unbroken f.render) (defaultLocale : Text)
    (moduleAlias : Given Text) :
    f.render <:+: (Modules.typesCode c defaultLocale moduleAlias).render := by
  have hbody := (infix_typeLiteral hf).trans (infix_typesBody c showing defaultLocale)
  have hindented : f.render <:+:
      (Code.indentLines (Modules.typesBody c defaultLocale)).render := by
    rw [Code.render_indentLines]
    exact hline.infix_padLineStarts hbody _ _
  refine hindented.trans (Code.infix_concat
    (f := .code (Code.indentLines (Modules.typesBody c defaultLocale))) ?_)
  exact List.mem_of_getElem? (i := 4) rfl

/-- Wherever a walk meets the leaf of a key, it gives it the type of its signature. -/
theorem mem_properties {c : Catalogue} (showing : Showing) {path : KeyPath} {e : Entry}
    (he : c.entry? path = some e) {segment : Segment} : ∀ children : List (Segment × Outline),
    (segment, .leaf path) ∈ children →
      (readonly segment, leafType showing e.signature) ∈ (walkChildren c showing children).properties
  | [], h => by cases h
  | (other, .leaf _) :: rest, h => by
    rw [walkChildren]
    rcases List.mem_cons.mp h with h | h
    · cases h
      rw [he]
      exact List.mem_cons_self
    · have ih := mem_properties showing he rest h
      split
      · exact ih
      · exact List.mem_cons_of_mem _ ih
  | (other, .interior _ _) :: rest, h => by
    rw [walkChildren]
    rcases List.mem_cons.mp h with h | h
    · cases h
    · exact List.mem_cons_of_mem _ (mem_properties showing he rest h)

/-! ### Scripts and declarations -/

/-- **A script honours a declaration**: it uses as values just the parameters that are declared with
the type of values, and applies just those that are declared with the type of formatters; nothing is
declared just if it uses none. -/
def Honours (declared : Declared) (valueType formatterType script : Text) : Prop :=
  ∃ program, Script.read script = some program ∧
    (∀ name, ⟨name, false⟩ ∈ program.parameters ↔ (name, valueType) ∈ declared.getD []) ∧
      (∀ name, ⟨name, true⟩ ∈ program.parameters ↔ (name, formatterType) ∈ declared.getD []) ∧
        (declared = none ↔ program.parameters = [])

theorem mem_declared (showing : Showing) (s : Signature) (p : Parameter) :
    (p.name, parameterType showing p.isFormatter) ∈ (declared showing s).getD [] ↔
      p ∈ s.parameters := by
  have hkind : ∀ a b, parameterType showing a = parameterType showing b → a = b := by
    cases showing <;> decide
  have hfields : (declared showing s).getD [] =
      s.parameters.map fun p => (p.name, parameterType showing p.isFormatter) := by
    unfold declared
    split_ifs with hs
    · rw [List.isEmpty_iff.mp hs]
      rfl
    · rfl
  rw [hfields, List.mem_map]
  constructor
  · rintro ⟨q, hq, heq⟩
    obtain ⟨hname, htype⟩ := Prod.mk.inj heq
    have hsame : q = p := by
      cases p
      cases q
      cases hname
      cases hkind _ _ htype
      rfl
    rwa [← hsame]
  · intro hp
    exact ⟨p, hp, rfl⟩

theorem honours_of_uses {script : Text} {s : Signature} (h : Template.Uses script s)
    (showing : Showing) : Honours (declared showing s) (parameterType showing false)
      (parameterType showing true) script := by
  obtain ⟨program, hread, huses⟩ := h
  refine ⟨program, hread, fun name => ?_, fun name => ?_, ?_⟩
  · rw [huses]
    exact (mem_declared showing s ⟨name, false⟩).symm
  · rw [huses]
    exact (mem_declared showing s ⟨name, true⟩).symm
  · have hnone : declared showing s = none ↔ s.parameters = [] := by
      unfold declared Signature.isEmpty
      cases s.parameters <;> simp
    rw [hnone, List.eq_nil_iff_forall_not_mem, List.eq_nil_iff_forall_not_mem]
    simp only [huses]

/-- **The interface of a showing is honoured.** The table of parameters, read back, declares the
parameters of each key that is shown, the type of its leaf declares the same, and so does the script
of each locale. -/
structure Honoured (c : Catalogue) (showing : Showing) (valueType formatterType : Text)
    (scripts : Entry → OrderedMap Text Text) (table : OrderedMap Text Declared) : Prop where
  read : (walk c showing).table.map (fun f => readEntry f.render) = table.map some
  nodup : table.keys.Nodup
  /-- The entries of the table stand in the declaration module. -/
  written : ∀ f ∈ (walk c showing).table, ∀ defaultLocale moduleAlias,
    f.render <:+: (Modules.typesCode c defaultLocale moduleAlias).render
  keys : ∀ key e, (key, e) ∈ c.entries → Shown showing e → ∃ declared,
    table.get? key = some declared ∧
      readType showing (leafType showing e.signature).render = some declared ∧
        (∀ segment children, (segment, Outline.leaf e.path) ∈ children →
          (readonly segment, leafType showing e.signature) ∈
            (walkChildren c showing children).properties) ∧
          ∀ locale script, (locale, script) ∈ scripts e →
            Honours declared valueType formatterType script

theorem exists_honoured {c : Catalogue} {documents : List Document}
    (h : c.Contents Template.compiler (translationsOf documents)) (showing : Showing)
    {scripts : Entry → OrderedMap Text Text} (hscripts : ∀ key e, (key, e) ∈ c.entries →
      ∀ locale script, (locale, script) ∈ scripts e → Template.Uses script e.signature) :
    ∃ table, Honoured c showing (parameterType showing false) (parameterType showing true) scripts
      table := by
  obtain ⟨table, hread, hnodup, hkeys⟩ := exists_table h showing
  refine ⟨table, hread, hnodup, ?_, ?_⟩
  · intro f hf
    have hentry := hf
    rw [table_walk h.rooted] at hentry
    obtain ⟨path, -, hpath⟩ := List.mem_filterMap.mp hentry
    obtain ⟨e, he, rfl⟩ := Option.map_eq_some_iff.mp hpath
    have hnames := wellNamed_signature h (OrderedMap.mem_of_get? he)
    exact infix_typesCode hf (unbroken_tableEntry showing hnames)
  · intro key e hmem hshown
    have hget := entry?_of_mem h hmem
    exact ⟨declared showing e.signature, hkeys key e hmem hshown,
      readType_leafType showing (wellNamed_signature h hmem),
      fun segment children => mem_properties showing hget children,
      fun locale script hscript => honours_of_uses (hscripts key e hmem locale script hscript) showing⟩

end Declarations

open Declarations in
/-- **Every locale honours the declared interface** of each key, with its text and with its list of
parts; and where a key has formatters, the same locales have both. -/
theorem Catalogue.honoured_merge {documents : List Document} {c : Catalogue}
    (h : (merge Template.compiler documents).outcome = .ok c) :
    (∃ table, Honoured c .translations "Param" "FormatFn" Entry.expressions table) ∧
      (∃ table, Honoured c .snippets "SnippetParam" "SnippetFormatFn" Entry.fragments table) ∧
        ∀ key e, (key, e) ∈ c.entries → e.signature.hasFormatters = true →
          ∀ locale, locale ∈ e.fragments.keys ↔ locale ∈ e.expressions.keys := by
  have hc := contents_addDocuments (merge_eq_ok.mp h)
  refine ⟨exists_honoured hc .translations ?_, exists_honoured hc .snippets ?_, ?_⟩
  · intro key e hmem locale script hscript
    obtain ⟨t, compiled, hcompiled, hs, rfl⟩ := (hc.records _ hmem).exists_expression hscript
    rw [← hs]
    exact (Template.uses_compile (Template.compiler_eq_ok.mp hcompiled)).1
  · intro key e hmem locale script hscript
    obtain ⟨t, compiled, hcompiled, hs, hfragment⟩ := (hc.records _ hmem).exists_fragment hscript
    rw [← hs]
    exact (Template.uses_compile (Template.compiler_eq_ok.mp hcompiled)).2 script hfragment
  · intro key e hmem hformatters locale
    have hentry := (hc.records _ hmem).holds
    rw [hentry.fragments Template.complete_compiler, hentry.locales]
    exact ⟨fun hboth => hboth.2, fun hlocale => ⟨hformatters, hlocale⟩⟩

set_option maxRecDepth 2000 in
open Declarations in
/-- Two locales that apply a formatter to a value, and a key without parameters. -/
theorem Catalogue.honoured_merge_formatter :
    let documents : List Document :=
      [{ locale := "en", tree := .map [(.text "a", .text "\x7bf:\x7bn\x7d\x7d \x7bm\x7d"),
          (.text "b", .text "B")] },
        { locale := "de", tree := .map [(.text "a", .text "\x7bm\x7d \x7bf:\x7bn\x7d!\x7d")] }]
    ∃ c, (merge Template.compiler documents).outcome = .ok c ∧
      (∃ table, Honoured c .translations "Param" "FormatFn" Entry.expressions table) ∧
        (∃ table, Honoured c .snippets "SnippetParam" "SnippetFormatFn" Entry.fragments table) ∧
          ∀ key e, (key, e) ∈ c.entries → e.signature.hasFormatters = true →
            ∀ locale, locale ∈ e.fragments.keys ↔ locale ∈ e.expressions.keys := by
  intro documents
  have hok : (merge Template.compiler documents).outcome.isOk = true := by cbv
  obtain ⟨c, hc⟩ := Except.exists_eq_ok hok
  exact ⟨c, hc, honoured_merge hc⟩

end Phrasebook
