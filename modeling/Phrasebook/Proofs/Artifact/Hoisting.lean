import Mathlib.Algebra.GroupWithZero.Nat
import Phrasebook.Proofs.Artifact.Objects
import Phrasebook.Proofs.Artifact.Table
import Phrasebook.Proofs.Json.Token
import Phrasebook.Proofs.Schema.Holdings

/-! # Hoisted scripts

Among the snippets the script of each locale is declared as a constant with a number, and the object
refers to it by its name. The declarations are those of the scripts of the keys with formatters, in
the order of the tree (`Runtime.declarations_walkChildren`). The calls in the object are read from
its text, which lists nested objects before leaves, so they come in another order
(`Runtime.exists_reads_walkChildren`). Each call refers to its own scripts and each script is
referred to once, whatever compiler the scripts are from (`Runtime.exists_hoists`). -/

namespace Phrasebook

/-! ### What is hoisted -/

/-- A script that is hoisted: that of a locale for a key. -/
structure Hoisted where
  key : Text
  locale : Text
  script : Text

/-- The scripts of a key that are hoisted, in the order of their locales. -/
def Entry.hoisted (e : Entry) : List Hoisted := e.fragments.map fun x => ⟨e.key, x.1, x.2⟩

theorem Entry.length_hoisted (e : Entry) : e.hoisted.length = e.fragments.length :=
  List.length_map _

namespace Catalogue

/-- The entries of the keys with formatters, in the order of the tree. -/
def formatted (c : Catalogue) : List Entry :=
  (c.arena.leaves.filter c.hasFormatters).filterMap c.entry?

/-- **The scripts that are hoisted**, in the order of the tree. -/
def hoisted (c : Catalogue) : List Hoisted := c.formatted.flatMap Entry.hoisted

theorem length_hoisted (c : Catalogue) :
    c.hoisted.length = (c.formatted.map fun e => e.fragments.length).sum := by
  have hlengths : (fun e : Entry => e.hoisted.length) = fun e => e.fragments.length :=
    funext Entry.length_hoisted
  unfold hoisted
  rw [List.length_flatMap, hlengths]

end Catalogue

namespace Runtime

/-! ### The calls in an object -/

/-- A call of `reactive`: a key, and the value of each locale. -/
abbrev Call := Text × List (Text × Text)

/-- What a call refers to for a locale. -/
structure Reference where
  key : Text
  locale : Text
  value : Text
deriving DecidableEq

/-- What calls refer to, in their order. -/
def references (calls : List Call) : List Reference :=
  calls.flatMap fun call => call.2.map fun x => ⟨call.1, x.1, x.2⟩

/-- The name that a text begins with, and what is left. -/
def name? (t : Text) : Option (Text × Text) :=
  match t.takeWhile Script.isNamePart with
  | [] => none
  | name => some (name, t.dropWhile Script.isNamePart)

/-- The calls in a node: those in its nested objects, and its leaves. -/
def gather (nested : List (Text × List Call)) (leaves : List (Text × Call)) : List Call :=
  nested.flatMap (·.2) ++ leaves.map (·.2)

/-- **All calls in the object** that a whole text is. -/
def calls? (t : Text) : Option (List Call) := readNode? (call? name?) gather t

/-! ### Names -/

theorem isNamePart_of_mem_snippetName (number : Nat) :
    ∀ c ∈ snippetName number, Script.isNamePart c = true := by
  have hbeginning : ∀ c ∈ Text.ofString "snippet_", Script.isNamePart c = true := by decide
  refine List.forall_mem_append.mpr ⟨hbeginning, fun c hc => ?_⟩
  have hdigit : c.isDigit = true := Json.isDigit_of_mem_ofNat hc
  rw [Script.isNamePart, hdigit, Bool.or_true]

theorem snippetName_inj {number other : Nat} :
    snippetName number = snippetName other ↔ number = other := by
  constructor
  · intro h
    have hnumeral := congrArg Numeral.toNat (List.append_cancel_left h)
    rwa [Json.toNat_ofNat, Json.toNat_ofNat] at hnumeral
  · exact congrArg snippetName

/-- **The name of a script is read** up to a comma or a line feed. -/
theorem readsValue_snippetName (number : Nat) :
    Script.ReadsValue name? (snippetName number) (snippetName number) := by
  have hparts := isNamePart_of_mem_snippetName number
  have hunbroken : Unbroken (snippetName number) :=
    fun hlf => absurd (hparts _ hlf) (by decide)
  intro pad _ c rest hc
  have hstop : Script.isNamePart c = false := by
    rcases hc with rfl | rfl <;> decide
  have htake : (snippetName number ++ c :: rest).takeWhile Script.isNamePart =
      snippetName number := by
    rw [List.takeWhile_append_of_pos hparts, List.takeWhile_cons_of_neg (by simp [hstop]),
      List.append_nil]
  have hdrop : (snippetName number ++ c :: rest).dropWhile Script.isNamePart = c :: rest := by
    rw [List.dropWhile_append_of_pos hparts, List.dropWhile_cons_of_neg (by simp [hstop])]
  rw [hunbroken.padAfterBreaks, name?, htake, hdrop]
  rfl

/-! ### Declarations -/

theorem render_declaration (number : Nat) (script : Text) :
    (declaration number script).render =
      "const " ++ snippetName number ++ " = " ++ script ++ ";" := by
  unfold declaration
  rw [Fragment.render_code, Code.render_concat]
  simp only [List.map_cons, List.map_nil, List.flatten_cons, List.flatten_nil, List.append_nil,
    Fragment.render_plain, List.append_assoc]

/-- The declarations of scripts that are numbered from a number on. -/
def declarationsFrom (next : Nat) (scripts : List Hoisted) : List Fragment :=
  (scripts.zipIdx next).map fun (x, number) => declaration number x.script

theorem declarationsFrom_append (next : Nat) (first rest : List Hoisted) :
    declarationsFrom next (first ++ rest) =
      declarationsFrom next first ++ declarationsFrom (next + first.length) rest := by
  unfold declarationsFrom
  rw [List.zipIdx_append, List.map_append]

theorem declarations_eq (next : Nat) (e : Entry) :
    declarations next e = declarationsFrom next e.hoisted := by
  unfold declarations declarationsFrom Entry.hoisted
  rw [List.zipIdx_map, List.map_map]
  rfl

theorem length_declarationsFrom (next : Nat) (scripts : List Hoisted) :
    (declarationsFrom next scripts).length = scripts.length := by
  unfold declarationsFrom
  rw [List.length_map, List.length_zipIdx]

/-- **The declarations of a walk** are those of the scripts that it meets, in their order. -/
theorem declarations_walkChildren (c : Catalogue) :
    ∀ (children : List (Segment × Outline)) (next : Nat),
      (walkChildren c .snippets next children).declarations = declarationsFrom next
        (((Outline.leavesOfChildren children).filterMap c.entry?).flatMap Entry.hoisted)
  | [], next => by
    rw [walkChildren, Outline.leavesOfChildren]
    rfl
  | (segment, .leaf path) :: rest, next => by
    rw [walkChildren, Outline.leavesOfChildren, Outline.leaves, List.singleton_append]
    cases he : c.entry? path with
    | none =>
      rw [List.filterMap_cons_none he]
      exact declarations_walkChildren c rest next
    | some e =>
      have ih := declarations_walkChildren c rest (next + e.hoisted.length)
      rw [List.filterMap_cons_some he, List.flatMap_cons, declarationsFrom_append, ← ih]
      simp only [if_true, declarations_eq, length_declarationsFrom]
  | (segment, .interior path children) :: rest, next => by
    rw [walkChildren, Outline.leavesOfChildren, Outline.leaves, List.filterMap_append,
      List.flatMap_append, declarationsFrom_append]
    simp only [declarations_walkChildren c children next, length_declarationsFrom,
      declarations_walkChildren c rest]

/-! ### Calls -/

/-- The call of a key whose scripts are numbered from a number on. -/
def callFrom (next : Nat) (e : Entry) : Call :=
  (e.key, (e.fragments.zipIdx next).map fun (x, number) => (x.1, snippetName number))

/-- The calls of keys whose scripts are numbered from a number on. -/
def callsFrom (next : Nat) : List Entry → List Call
  | [] => []
  | e :: rest => callFrom next e :: callsFrom (next + e.fragments.length) rest

theorem callsFrom_append (first rest : List Entry) (next : Nat) :
    callsFrom next (first ++ rest) =
      callsFrom next first ++ callsFrom (next + (first.flatMap Entry.hoisted).length) rest := by
  induction first generalizing next with
  | nil => rfl
  | cons e first ih =>
    rw [List.cons_append, callsFrom, callsFrom, ih, List.flatMap_cons, List.length_append,
      Entry.length_hoisted, Nat.add_assoc]
    rfl

theorem keys_callsFrom (entries : List Entry) (next : Nat) :
    (callsFrom next entries).map Prod.fst = entries.map Entry.key := by
  induction entries generalizing next with
  | nil => rfl
  | cons e entries ih =>
    rw [callsFrom, List.map_cons, List.map_cons, ih]
    rfl

/-- The references to scripts that are numbered from a number on. -/
def referencesFrom (next : Nat) (scripts : List Hoisted) : List Reference :=
  (scripts.zipIdx next).map fun (x, number) => ⟨x.key, x.locale, snippetName number⟩

/-- **The calls of keys refer to the scripts of the keys**, each to its own. -/
theorem references_callsFrom (entries : List Entry) (next : Nat) :
    references (callsFrom next entries) =
      referencesFrom next (entries.flatMap Entry.hoisted) := by
  induction entries generalizing next with
  | nil => rfl
  | cons e entries ih =>
    have hself : (callFrom next e).2.map (fun x => (⟨e.key, x.1, x.2⟩ : Reference)) =
        referencesFrom next e.hoisted := by
      unfold callFrom referencesFrom Entry.hoisted
      rw [List.zipIdx_map, List.map_map, List.map_map]
      rfl
    have hrest : references (callsFrom (next + e.fragments.length) entries) =
        referencesFrom (next + e.hoisted.length) (entries.flatMap Entry.hoisted) := by
      rw [ih, Entry.length_hoisted]
    unfold referencesFrom at hself hrest ⊢
    rw [List.flatMap_cons, List.zipIdx_append, List.map_append, ← hself, ← hrest]
    rfl

theorem readsValue_snippetScript (next : Nat) (e : Entry) :
    Script.ReadsValue (call? name?) (leafScript .snippets next e).render (callFrom next e) := by
  refine readsValue_leafScript ?_
  unfold localized
  rw [List.forall₂_map_left_iff, List.forall₂_map_right_iff, List.forall₂_same]
  exact fun x _ => ⟨rfl, readsValue_snippetName x.2⟩

/-- **The calls in what a walk gives are read** as those of the keys that it meets, in another
order, if there are at least as many levels as a nested object has code points. -/
theorem exists_reads_walkChildren (c : Catalogue) :
    ∀ (children : List (Segment × Outline)) (next : Nat), ∃ nested leaves,
      (∀ levels, (∀ p ∈ (walkChildren c .snippets next children).nested,
          p.2.render.length ≤ levels) →
        List.Forall₂ (Script.ReadsProperty (node? (call? name?) gather levels))
          (walkChildren c .snippets next children).nested nested) ∧
      List.Forall₂ (Script.ReadsProperty (call? name?))
        (walkChildren c .snippets next children).reactive leaves ∧
      (gather nested leaves).Perm
        (callsFrom next ((Outline.leavesOfChildren children).filterMap c.entry?))
  | [], next => by
    rw [walkChildren, Outline.leavesOfChildren]
    exact ⟨[], [], fun _ _ => .nil, .nil, .nil⟩
  | (segment, .leaf path) :: rest, next => by
    rw [walkChildren, Outline.leavesOfChildren, Outline.leaves, List.singleton_append]
    cases he : c.entry? path with
    | none =>
      rw [List.filterMap_cons_none he]
      exact exists_reads_walkChildren c rest next
    | some e =>
      obtain ⟨nested, leaves, hnested, hleaves, hcalls⟩ :=
        exists_reads_walkChildren c rest (next + e.fragments.length)
      simp only [if_true, declarations_eq, length_declarationsFrom, Entry.length_hoisted]
      refine ⟨nested, (segment.toText, callFrom next e) :: leaves, hnested,
        .cons ⟨rfl, readsValue_snippetScript next e⟩ hleaves, ?_⟩
      rw [List.filterMap_cons_some he, callsFrom]
      exact List.perm_middle.trans (hcalls.cons _)
  | (segment, .interior path children) :: rest, next => by
    obtain ⟨nestedBelow, leavesBelow, hreads, hreadsLeaves, hcallsBelow⟩ :=
      exists_reads_walkChildren c children next
    obtain ⟨nested, leaves, hnested, hleaves, hcalls⟩ := exists_reads_walkChildren c rest
      (next + (walkChildren c .snippets next children).declarations.length)
    have hgather : gather ((segment.toText, gather nestedBelow leavesBelow) :: nested) leaves =
        gather nestedBelow leavesBelow ++ gather nested leaves := by
      unfold gather
      rw [List.flatMap_cons, List.append_assoc, List.append_assoc]
    rw [declarations_walkChildren, length_declarationsFrom] at hcalls
    rw [walkChildren, Outline.leavesOfChildren, Outline.leaves, List.filterMap_append,
      callsFrom_append]
    refine ⟨(segment.toText, gather nestedBelow leavesBelow) :: nested, leaves, ?_, hleaves, ?_⟩
    · intro levels hlevels
      obtain ⟨hinner, hothers⟩ := List.forall_mem_cons.mp hlevels
      obtain ⟨below, rfl, hbelow⟩ := exists_below hinner
      exact .cons ⟨rfl, readsValue_object (hreads below hbelow) hreadsLeaves⟩
        (hnested _ hothers)
    · rw [hgather]
      exact hcallsBelow.append hcalls

/-! ### The snippets of a schema -/

section Walk
variable {c : Catalogue} (h : c.arena.Rooted)
include h

theorem formatted_eq : (Outline.leavesOfChildren (c.view .snippets).children).filterMap c.entry? =
    c.formatted := by
  rw [Catalogue.leaves_view h]
  rfl

/-- **The declarations of the snippets** are those of the scripts that are hoisted. -/
theorem declarations_walk : (walk c .snippets).declarations = declarationsFrom 0 c.hoisted := by
  unfold walk Catalogue.hoisted
  rw [declarations_walkChildren, formatted_eq h]

/-- **The calls in the object of the snippets** are those of the keys with formatters. -/
theorem exists_calls?_walk : ∃ calls,
    (∀ pad, Spaces pad → calls? (Code.padAfterBreaks pad (walk c .snippets).object.render) =
      some calls) ∧ calls.Perm (callsFrom 0 c.formatted) := by
  obtain ⟨nested, leaves, hnested, hleaves, hcalls⟩ :=
    exists_reads_walkChildren c (c.view .snippets).children 0
  rw [formatted_eq h] at hcalls
  refine ⟨_, fun pad hpad => ?_, hcalls⟩
  obtain ⟨levels, hlevels, hbelow⟩ :=
    exists_below (Code.length_le_padAfterBreaks pad (walk c .snippets).object.render)
  exact readNode?_object hpad hlevels (hnested levels hbelow) hleaves

end Walk

/-! ### One to one -/

/-- **Scripts are hoisted one to one**: each is declared once, and the calls refer to each once. -/
structure Hoists (c : Catalogue) (declarations : List Fragment) (calls : List Call) : Prop where
  /-- The scripts that are hoisted are those of the leaves with formatters. -/
  keys : c.formatted.map Entry.key = (c.arena.leaves.filter c.hasFormatters).map KeyPath.key
  length : declarations.length = (c.formatted.map fun e => e.fragments.length).sum
  /-- The declarations stand in the order of the tree, and the scripts of a leaf in their order. -/
  declared : ∀ number x, c.hoisted[number]? = some x → declarations[number]?.map Fragment.render =
    some ("const " ++ snippetName number ++ " = " ++ x.script ++ ";")
  /-- Only what is declared is referred to. -/
  named : ∀ r ∈ references calls, ∃ number < declarations.length, r.value = snippetName number
  /-- What is declared is referred to once: in the call of its key, and for its locale. -/
  referred : ∀ number x, c.hoisted[number]? = some x →
    (references calls).filter (·.value = snippetName number) =
      [⟨x.key, x.locale, snippetName number⟩]
  /-- Each leaf with formatters has one call, and there are no others. -/
  called : (calls.map Prod.fst).Perm ((c.arena.leaves.filter c.hasFormatters).map KeyPath.key)
  /-- A leaf without formatters plays no part. -/
  plain : ∀ p ∈ c.arena.leaves, c.hasFormatters p = false →
    (∀ x ∈ c.hoisted, x.key ≠ p.key) ∧ ∀ r ∈ references calls, r.key ≠ p.key

theorem filter_zipIdx {α : Type} {xs : List α} {number : Nat} {x : α} (h : xs[number]? = some x)
    (next : Nat) :
    (xs.zipIdx next).filter (fun y => y.2 = next + number) = [(x, next + number)] := by
  induction xs generalizing number next with
  | nil => cases h
  | cons first xs ih =>
    rw [List.zipIdx_cons]
    cases number with
    | zero =>
      have hlater : ∀ y ∈ xs.zipIdx (next + 1), ¬decide (y.2 = next + 0) = true := by
        intro y hy
        have hle := List.le_snd_of_mem_zipIdx hy
        simp only [decide_eq_true_eq]
        omega
      obtain rfl : first = x := Option.some_inj.mp h
      rw [List.filter_cons_of_pos (by simp), List.filter_eq_nil_iff.mpr hlater]
      rfl
    | succ number =>
      have hrest : xs[number]? = some x := h
      have hnumber : next + (number + 1) = next + 1 + number := by omega
      rw [List.filter_cons_of_neg (by simp), hnumber]
      exact ih hrest (next + 1)

theorem filter_referencesFrom {scripts : List Hoisted} {number : Nat} {x : Hoisted}
    (h : scripts[number]? = some x) :
    (referencesFrom 0 scripts).filter (·.value = snippetName number) =
      [⟨x.key, x.locale, snippetName number⟩] := by
  have hfilter := filter_zipIdx h 0
  rw [Nat.zero_add] at hfilter
  unfold referencesFrom
  rw [List.filter_map]
  simp only [Function.comp_def, snippetName_inj, hfilter]
  rfl

section Contents
variable {compiler : Compiler} {documents : List Document} {c : Catalogue}
  (h : c.Contents compiler (translationsOf documents))
include h

theorem exists_entry?_of_mem_leaves {p : KeyPath} (hp : p ∈ c.arena.leaves) :
    ∃ e, c.entry? p = some e ∧ e.key = p.key := by
  have htext := h.find?_leaf.mp (h.rooted.mem_leaves.mp hp)
  obtain ⟨e, he, hpath⟩ := h.exists_entry htext
  exact ⟨e, he, congrArg KeyPath.key hpath⟩

theorem keys_formatted :
    c.formatted.map Entry.key = (c.arena.leaves.filter c.hasFormatters).map KeyPath.key := by
  have hleaves : ∀ p ∈ c.arena.leaves.filter c.hasFormatters, p ∈ c.arena.leaves :=
    fun p hp => List.mem_of_mem_filter hp
  unfold Catalogue.formatted
  generalize c.arena.leaves.filter c.hasFormatters = paths at hleaves
  induction paths with
  | nil => rfl
  | cons p paths ih =>
    obtain ⟨hp, hpaths⟩ := List.forall_mem_cons.mp hleaves
    obtain ⟨e, he, hkey⟩ := exists_entry?_of_mem_leaves h hp
    rw [List.filterMap_cons_some he, List.map_cons, List.map_cons, hkey, ih hpaths]

theorem key_ne_of_mem_hoisted {x : Hoisted} (hx : x ∈ c.hoisted) {p : KeyPath}
    (hplain : c.hasFormatters p = false) : x.key ≠ p.key := by
  obtain ⟨e, he, hxe⟩ := List.mem_flatMap.mp hx
  obtain ⟨_, -, rfl⟩ := List.mem_map.mp hxe
  have hkey : e.key ∈ (c.arena.leaves.filter c.hasFormatters).map KeyPath.key := by
    rw [← keys_formatted h]
    exact List.mem_map_of_mem he
  obtain ⟨q, hq, hqe⟩ := List.mem_map.mp hkey
  have hformatted : c.hasFormatters q = true := (List.mem_filter.mp hq).2
  intro hsame
  have hkeys : q.key = p.key := hqe.trans hsame
  -- Whether a path has formatters is known of its key.
  have heq : c.hasFormatters q = c.hasFormatters p := by
    unfold Catalogue.hasFormatters Catalogue.entry?
    rw [hkeys]
  rw [heq, hplain] at hformatted
  cases hformatted

end Contents

theorem mem_referencesFrom {scripts : List Hoisted} {r : Reference}
    (h : r ∈ referencesFrom 0 scripts) : ∃ number x, scripts[number]? = some x ∧
      r = ⟨x.key, x.locale, snippetName number⟩ := by
  obtain ⟨⟨x, number⟩, hx, rfl⟩ := List.mem_map.mp h
  exact ⟨number, x, List.mk_mem_zipIdx_iff_getElem?.mp hx, rfl⟩

/-- **Scripts are hoisted one to one**, whatever compiler they are from. The calls are read from the
text of the object, at any indentation. -/
theorem exists_hoists {compiler : Compiler} {documents : List Document} {c : Catalogue}
    (h : (Catalogue.merge compiler documents).outcome = .ok c) : ∃ calls,
      (∀ pad, Spaces pad → calls? (Code.padAfterBreaks pad (walk c .snippets).object.render) =
        some calls) ∧ Hoists c (walk c .snippets).declarations calls := by
  have hc := Catalogue.contents_addDocuments (Catalogue.merge_eq_ok.mp h)
  obtain ⟨calls, hread, hcalls⟩ := exists_calls?_walk hc.rooted
  have hreferences : (references calls).Perm (referencesFrom 0 c.hoisted) := by
    have hperm : (references calls).Perm (references (callsFrom 0 c.formatted)) :=
      hcalls.flatMap_right _
    rwa [references_callsFrom] at hperm
  have hlength : (walk c .snippets).declarations.length = c.hoisted.length := by
    rw [declarations_walk hc.rooted, length_declarationsFrom]
  refine ⟨calls, hread, keys_formatted hc, ?_, ?_, ?_, ?_, ?_, ?_⟩
  · rw [hlength, c.length_hoisted]
  · intro number x hx
    rw [declarations_walk hc.rooted, declarationsFrom, List.getElem?_map, List.getElem?_zipIdx, hx,
      Option.map_some, Option.map_some, Option.map_some, Nat.zero_add, render_declaration]
  · intro r hr
    obtain ⟨number, x, hx, rfl⟩ := mem_referencesFrom (hreferences.mem_iff.mp hr)
    obtain ⟨hlt, -⟩ := List.getElem?_eq_some_iff.mp hx
    exact ⟨number, hlength ▸ hlt, rfl⟩
  · intro number x hx
    have hfiltered := hreferences.filter (·.value = snippetName number)
    rw [filter_referencesFrom hx] at hfiltered
    exact List.perm_singleton.mp hfiltered
  · have hkeys := hcalls.map Prod.fst
    rwa [keys_callsFrom, keys_formatted hc] at hkeys
  · intro p _ hplain
    refine ⟨fun x hx => key_ne_of_mem_hoisted hc hx hplain, fun r hr => ?_⟩
    obtain ⟨number, x, hx, rfl⟩ := mem_referencesFrom (hreferences.mem_iff.mp hr)
    exact key_ne_of_mem_hoisted hc (List.mem_of_getElem? hx) hplain

set_option maxRecDepth 4000 in
/-- Two locales, of which one lacks a key, a leaf before a nested object, and a key without
formatters. -/
theorem exists_hoists_nested :
    let documents : List Document :=
      [{ locale := "en", tree := .map [(.text "a", .text "\x7bf: n\x7d"), (.text "b", .map
          [(.text "c", .text "\x7bg:\x7d"), (.text "d", .text "D")])] },
        { locale := "de", tree := .map [(.text "a", .text "!\x7bf: n\x7d")] }]
    ∃ c calls, (Catalogue.merge Template.compiler documents).outcome = .ok c ∧
      (∀ pad, Spaces pad → calls? (Code.padAfterBreaks pad (walk c .snippets).object.render) =
        some calls) ∧ Hoists c (walk c .snippets).declarations calls := by
  intro documents
  have hok : (Catalogue.merge Template.compiler documents).outcome.isOk = true := by cbv
  obtain ⟨c, hc⟩ := Except.exists_eq_ok hok
  obtain ⟨calls, hread, hhoists⟩ := exists_hoists hc
  exact ⟨c, calls, hc, hread, hhoists⟩

end Runtime

end Phrasebook
