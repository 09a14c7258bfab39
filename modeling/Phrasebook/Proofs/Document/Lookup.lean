import Phrasebook.Proofs.Document.Distinct
import Phrasebook.Proofs.Document.Subtree
import Phrasebook.Proofs.Document.Written
import Phrasebook.Proofs.Json.Token
import Phrasebook.Proofs.OrderedMap

/-! # Looking up the paths of a tree

The steps to a value in a tree are names, also where they lead into a list, while a lookup enters a
list with an index only. So a lookup follows the path of a value through mappings and stops at the
first list (`Datum.At.follow?_eq`). With an index for each step into a list there is one path that
leads back to the value (`Datum.At.exists_indexed`). -/

namespace Phrasebook

namespace Datum

/-! ### Entries of keyed mappings -/

theorem entry?_eq_get? {α : Type} (name : Text) (entries : List (DatumKey × Datum α)) :
    entry? name entries = OrderedMap.get? (.text name) entries := by
  induction entries with
  | nil => rfl
  | cons entry rest ih =>
    obtain ⟨key, value⟩ := entry
    unfold entry? OrderedMap.get?
    rw [ih]

section Entries
variable {α : Type} {entries : List (DatumKey × Datum α)} (hentries : KeyedEntries entries)
  {key : DatumKey} {child : Datum α} (hentry : (key, child) ∈ entries)
include hentries hentry

/-- The value under the text of a key is the one in its entry. -/
theorem KeyedEntries.entry?_eq_some : entry? key.toText entries = some child := by
  obtain ⟨names, hnodup, hkeys⟩ := hentries.keys
  have hmem : key ∈ entries.map (·.1) := List.mem_map.mpr ⟨_, hentry, rfl⟩
  rw [hkeys] at hmem
  obtain ⟨name, -, rfl⟩ := List.mem_map.mp hmem
  have hdistinct : (OrderedMap.keys entries).Nodup := by
    unfold OrderedMap.keys
    rw [hkeys]
    exact hnodup.map fun a b hab => DatumKey.text.inj hab
  rw [entry?_eq_get?]
  exact OrderedMap.get?_of_mem hdistinct hentry

/-- Keys with one text are those of one entry. -/
theorem KeyedEntries.child_unique {other : DatumKey} {value : Datum α}
    (hother : (other, value) ∈ entries) (htext : other.toText = key.toText) : value = child := by
  have hvalue := hentries.entry?_eq_some hother
  rw [htext, hentries.entry?_eq_some hentry] at hvalue
  exact (Option.some.inj hvalue).symm

end Entries

/-! ### Lists on the way -/

/-- **The steps lead into a list**, at their beginning or later. -/
def EntersList (tree : Datum Foreign) (steps : List Segment) : Prop :=
  ∃ front segment rest items, steps = front ++ segment :: rest ∧ tree.At front (.list items)

theorem not_entersList_nil (tree : Datum Foreign) : ¬tree.EntersList [] := by
  rintro ⟨front, segment, rest, items, hsteps, -⟩
  cases front <;> cases hsteps

theorem entersList_list (items : List (Datum Foreign)) (segment : Segment) (steps : List Segment) :
    EntersList (.list items) (segment :: steps) :=
  ⟨[], segment, steps, items, rfl, .here _⟩

theorem entersList_map {entries : List (DatumKey × Datum Foreign)} (hentries : KeyedEntries entries)
    {key : DatumKey} {child : Datum Foreign} (hentry : (key, child) ∈ entries)
    (steps : List Segment) :
    EntersList (.map entries) (.name key.toText :: steps) ↔ child.EntersList steps := by
  constructor
  · rintro ⟨front, segment, rest, items, hsteps, hat⟩
    generalize hlist : Datum.list items = value at hat
    cases hat with
    | here => cases hlist
    | @entry _ other found _ front hother hat =>
      obtain ⟨hname, hrest⟩ := List.cons.inj hsteps
      have htext : other.toText = key.toText := (Segment.name.inj hname).symm
      have hfound : found = child := hentries.child_unique hentry hother htext
      exact ⟨front, segment, rest, items, hrest, hlist ▸ hfound ▸ hat⟩
  · rintro ⟨front, segment, rest, items, rfl, hat⟩
    exact ⟨_, segment, rest, items, rfl, .entry hentry hat⟩

/-! ### Following steps -/

section Step
variable {s : Segment} {steps : List Segment}

theorem step?_ne_none {tree : Datum Foreign} (h : KeyPath.follow? (s :: steps) tree ≠ none) :
    KeyPath.step? s tree ≠ none := by
  intro hnone
  rw [KeyPath.follow?, hnone, Option.bind_none] at h
  exact h rfl

theorem eq_index_of_step?_ne_none {items : List (Datum Foreign)} {position : Nat}
    (htext : s.toText = Numeral.ofNat position)
    (h : KeyPath.step? s (.list items) ≠ none) : s = .index position := by
  cases s with
  | name t => exact absurd rfl h
  | index n =>
    cases n with
    | ofNat n =>
      have hnumeral : Numeral.toNat (Numeral.ofNat n) = Numeral.toNat (Numeral.ofNat position) :=
        congrArg Numeral.toNat htext
      rw [Json.toNat_ofNat, Json.toNat_ofNat] at hnumeral
      rw [hnumeral]
      rfl
    | negSucc n => exact absurd rfl h

theorem eq_name_of_step?_ne_none {entries : List (DatumKey × Datum Foreign)} {t : Text}
    (htext : s.toText = t) (h : KeyPath.step? s (.map entries) ≠ none) : s = .name t := by
  cases s with
  | name t =>
    cases htext
    rfl
  | index n =>
    have hnone : KeyPath.step? (.index n) (.map entries) = none := by
      show (if 0 ≤ n then ([] : List (Datum Foreign))[n.toNat]? else none) = none
      rw [List.getElem?_nil, ite_self]
    exact absurd hnone h

end Step

namespace At

variable {tree value : Datum Foreign} {steps : List Segment}

/-- **Through mappings a lookup follows the steps to a value**; at a list it stops. -/
theorem follow?_eq (h : tree.At steps value) (hkeyed : tree.Keyed) :
    (¬tree.EntersList steps → KeyPath.follow? steps tree = some value) ∧
      (tree.EntersList steps → KeyPath.follow? steps tree = none) := by
  induction h with
  | here tree => exact ⟨fun _ => rfl, fun h => absurd h (not_entersList_nil tree)⟩
  | @item items position item value steps hitem h ih =>
    exact ⟨fun hnot => absurd (entersList_list items _ steps) hnot, fun _ => rfl⟩
  | @entry entries key child value steps hentry h ih =>
    have hentries := hkeyed.of_map
    have hfollow : KeyPath.follow? (.name key.toText :: steps) (.map entries) =
        KeyPath.follow? steps child := by
      rw [KeyPath.follow?, KeyPath.step?, hentries.entry?_eq_some hentry, Option.bind_some]
    rw [entersList_map hentries hentry, hfollow]
    exact ih (hentries.value _ hentry)

/-- **With an index for each step into a list** the steps lead back to the value, and no other steps
with the same texts lead anywhere. -/
theorem exists_indexed (h : tree.At steps value) (hkeyed : tree.Keyed) :
    ∃ indexed : List Segment, indexed.map Segment.toText = steps.map Segment.toText ∧
      KeyPath.follow? indexed tree = some value ∧
        ∀ other : List Segment, other.map Segment.toText = steps.map Segment.toText →
          KeyPath.follow? other tree ≠ none → other = indexed := by
  induction h with
  | here tree => exact ⟨[], rfl, rfl, fun other hother _ => List.map_eq_nil_iff.mp hother⟩
  | @item items position item value steps hitem h ih =>
    obtain ⟨indexed, htexts, hfollow, hunique⟩ := ih (hkeyed.of_list _ (List.mem_of_getElem? hitem))
    have hstep : KeyPath.step? (.index position) (.list items) = some item := by
      rw [KeyPath.step?, if_pos (Int.natCast_nonneg position), Int.toNat_natCast]
      exact hitem
    refine ⟨.index position :: indexed, ?_, ?_, ?_⟩
    · rw [List.map_cons, List.map_cons, htexts]
      rfl
    · rw [KeyPath.follow?, hstep, Option.bind_some, hfollow]
    · intro other hother hfound
      obtain ⟨first, rest, rfl⟩ : ∃ first rest, other = first :: rest :=
        List.exists_cons_of_ne_nil (by rintro rfl; cases hother)
      obtain ⟨hfirst, hrest⟩ := List.cons.inj hother
      obtain rfl := eq_index_of_step?_ne_none hfirst (step?_ne_none hfound)
      rw [KeyPath.follow?, hstep, Option.bind_some] at hfound
      rw [hunique rest hrest hfound]
  | @entry entries key child value steps hentry h ih =>
    have hentries := hkeyed.of_map
    obtain ⟨indexed, htexts, hfollow, hunique⟩ := ih (hentries.value _ hentry)
    have hstep : KeyPath.step? (.name key.toText) (.map entries) = some child :=
      hentries.entry?_eq_some hentry
    refine ⟨.name key.toText :: indexed, ?_, ?_, ?_⟩
    · rw [List.map_cons, List.map_cons, htexts]
    · rw [KeyPath.follow?, hstep, Option.bind_some, hfollow]
    · intro other hother hfound
      obtain ⟨first, rest, rfl⟩ : ∃ first rest, other = first :: rest :=
        List.exists_cons_of_ne_nil (by rintro rfl; cases hother)
      obtain ⟨hfirst, hrest⟩ := List.cons.inj hother
      obtain rfl : first = .name key.toText :=
        eq_name_of_step?_ne_none hfirst (step?_ne_none hfound)
      rw [KeyPath.follow?, hstep, Option.bind_some] at hfound
      rw [hunique rest hrest hfound]

end At

/-- **A path leads back to a text** of a tree. -/
structure LeadsBack (tree : Datum Foreign) (p : KeyPath) (t : Text) : Prop where
  /-- Through mappings the path itself does. -/
  direct : ¬tree.EntersList p.segments → p.lookup tree = .ok (.text t)
  /-- At a list a lookup stops. -/
  stuck : tree.EntersList p.segments → p.lookup tree = .error (.notFound p.key)
  /-- One path of the same texts does, and no other one leads anywhere. -/
  indexed : ∃ q : KeyPath, q.segments.map Segment.toText = p.segments.map Segment.toText ∧
    q.lookup tree = .ok (.text t) ∧
      ∀ r : KeyPath, r.segments.map Segment.toText = p.segments.map Segment.toText →
        ∀ value, r.lookup tree = .ok value → r = q

theorem lookup_eq_ok {tree value : Datum Foreign} {p : KeyPath}
    (h : KeyPath.follow? p.segments tree = some value) : p.lookup tree = .ok value := by
  unfold KeyPath.lookup
  rw [h]

theorem lookup_eq_error {tree : Datum Foreign} {p : KeyPath}
    (h : KeyPath.follow? p.segments tree = none) : p.lookup tree = .error p.notFound := by
  unfold KeyPath.lookup
  rw [h]

theorem At.leadsBack {tree : Datum Foreign} {p : KeyPath} {t : Text}
    (h : tree.At p.segments (.text t)) (hkeyed : tree.Keyed) : tree.LeadsBack p t := by
  obtain ⟨hdirect, hstuck⟩ := h.follow?_eq hkeyed
  obtain ⟨indexed, htexts, hfollow, hunique⟩ := h.exists_indexed hkeyed
  have hnotFound : p.notFound = .notFound p.key :=
    KeyPath.notFound_of_writable (KeyPath.writable_of_names h.names)
  refine ⟨fun hnot => lookup_eq_ok (hdirect hnot), fun hlist => ?_, ⟨indexed⟩, htexts,
    lookup_eq_ok (p := ⟨indexed⟩) hfollow, ?_⟩
  · rw [lookup_eq_error (hstuck hlist), hnotFound]
  · intro r hr value hvalue
    refine KeyPath.ext (hunique r.segments hr fun hnone => ?_)
    rw [lookup_eq_error hnone] at hvalue
    cases hvalue

end Datum

end Phrasebook
