import Phrasebook.Proofs.OrderedMap
import Phrasebook.Proofs.Schema.Descent
import Phrasebook.Proofs.Schema.Ledger
import Phrasebook.Proofs.Schema.Merger
import Phrasebook.Proofs.Schema.Signature

/-! # A merge keeps a ledger

A catalogue represents a ledger if its entries are those of the ledger, under their keys, and its
tree has leaves at just the paths of the ledger and interior nodes at just their beginnings
(`Represents`). Each text is then accepted by both or refused by both with the same failure
(`Represents.addText`), and so are documents: what a merge accepts and how it fails is told by the
ledger (`ledger_addDocuments`). -/

namespace Phrasebook

/-! ### What a ledger tells of a path -/

namespace Ledger

/-- A path is the root or begins an accepted path. -/
def Begins (l : Ledger) (path : KeyPath) : Prop := path = .root ∨ ∃ q ∈ l.keys, path ∈ q.ancestors

instance (l : Ledger) (path : KeyPath) : Decidable (l.Begins path) :=
  inferInstanceAs (Decidable (_ ∨ _))

/-- What the tree of the accepted paths has at a path. -/
def kind? (l : Ledger) (path : KeyPath) : Option Node.Kind :=
  if path ∈ l.keys then some .leaf else if l.Begins path then some .interior else none

section Kind
variable {l : Ledger} {p : KeyPath}

theorem kind?_eq_leaf : l.kind? p = some .leaf ↔ p ∈ l.keys := by
  unfold kind?
  split_ifs with hmem <;> simp [hmem]

theorem kind?_eq_interior : l.kind? p = some .interior ↔ p ∉ l.keys ∧ l.Begins p := by
  unfold kind?
  split_ifs with hmem hbegins
  · simp [hmem]
  · simp [hmem, hbegins]
  · simp [hbegins]

theorem kind?_eq_none : l.kind? p = none ↔ p ∉ l.keys ∧ ¬l.Begins p := by
  unfold kind?
  split_ifs with hmem hbegins
  · simp [hmem]
  · simp [hbegins]
  · simp [hmem, hbegins]

theorem keys_append (l : Ledger) (path : KeyPath) (s : Signature) :
    OrderedMap.keys (l ++ [(path, s)]) = l.keys ++ [path] := by
  unfold OrderedMap.keys
  rw [List.map_append]
  rfl

theorem begins_append (path : KeyPath) (s : Signature) :
    Ledger.Begins (l ++ [(path, s)]) p ↔ l.Begins p ∨ p ∈ path.ancestors := by
  unfold Begins
  simp only [keys_append, List.mem_append, List.mem_singleton, or_and_right, exists_or,
    exists_eq_left, or_assoc]

/-- An accepted path adds a leaf, and interior nodes at those of its beginnings where there was
nothing. -/
theorem kind?_append (path : KeyPath) (s : Signature) :
    Ledger.kind? (l ++ [(path, s)]) p =
      if p = path then some .leaf
      else if l.kind? p = none ∧ p ∈ path.ancestors then some .interior
      else l.kind? p := by
  simp only [kind?_eq_none]
  unfold kind?
  simp only [begins_append, keys_append, List.mem_append, List.mem_singleton]
  by_cases hp : p = path
  · simp [hp]
  · by_cases hmem : p ∈ l.keys
    · simp [hp, hmem]
    · by_cases hbegins : l.Begins p
      · simp [hp, hmem, hbegins]
      · simp [hp, hmem, hbegins]

end Kind

end Ledger

namespace Catalogue

/-- The accepted paths of a catalogue with their signatures. -/
def ledger (c : Catalogue) : Ledger := c.entries.map fun entry => (entry.2.path, entry.2.signature)

/-- **A catalogue represents a ledger.** -/
structure Represents (c : Catalogue) (l : Ledger) : Prop where
  ledger : c.ledger = l
  keyed : ∀ entry ∈ c.entries, entry.1 = entry.2.key
  nodup : c.entries.keys.Nodup
  sound : c.arena.Sound
  kind? : ∀ p, c.arena.kind? p = l.kind? p

theorem represents_empty : Represents {} [] where
  ledger := rfl
  keyed := List.forall_mem_nil _
  nodup := List.nodup_nil
  sound := Arena.sound_empty
  kind? := by
    intro p
    obtain ⟨segments⟩ := p
    cases segments with
    | nil => rfl
    | cons segment rest =>
      have hbegins : ¬Ledger.Begins [] ⟨segment :: rest⟩ := by
        rintro (hroot | ⟨q, hq, -⟩)
        · cases hroot
        · cases hq
      exact (Ledger.kind?_eq_none.mpr ⟨List.not_mem_nil, hbegins⟩).symm

/-! ### What is known of a catalogue that represents a ledger -/

namespace Represents
variable {c : Catalogue} {l : Ledger} (h : c.Represents l)
include h

/-- The keys of the entries are those of the accepted paths. -/
theorem keys_eq : c.entries.keys = l.keys.map KeyPath.key := by
  rw [← h.ledger]
  unfold Catalogue.ledger OrderedMap.keys
  rw [List.map_map, List.map_map]
  exact List.map_congr_left h.keyed

theorem keys_nodup : l.keys.Nodup := by
  have hnodup := h.nodup
  rw [h.keys_eq] at hnodup
  exact List.Pairwise.of_map KeyPath.key (fun a b hne hab => hne (congrArg KeyPath.key hab)) hnodup

theorem get?_eq_none {path : KeyPath} :
    c.entries.get? path.key = none ↔ ¬∃ q ∈ l.keys, q.key = path.key := by
  rw [OrderedMap.get?_eq_none, h.keys_eq, List.mem_map]

/-- The entry of an accepted path. -/
theorem exists_entry {path : KeyPath} (hpath : path ∈ l.keys) :
    ∃ e, c.entries.get? path.key = some e ∧ e.path = path ∧ l.get? path = some e.signature := by
  obtain ⟨⟨p, s⟩, hmem, rfl⟩ := List.mem_map.mp hpath
  have hget := OrderedMap.get?_of_mem h.keys_nodup hmem
  rw [← h.ledger] at hmem
  obtain ⟨⟨key, e⟩, hentry, hpair⟩ := List.mem_map.mp hmem
  cases hpair
  have hkey : key = e.key := h.keyed _ hentry
  subst hkey
  exact ⟨e, OrderedMap.get?_of_mem h.nodup hentry, rfl, hget⟩

/-- No accepted path begins another. -/
theorem not_mem_ancestors {p q : KeyPath} (hp : p ∈ l.keys) (hq : q ∈ l.keys) :
    p ∉ q.ancestors := by
  intro hpq
  obtain ⟨segment, rest, hsegments⟩ := KeyPath.exists_append_of_mem_ancestors hpq
  have hlonger : c.arena.kind? ⟨p.segments ++ segment :: rest⟩ ≠ none := by
    rw [← hsegments, h.kind?, Ledger.kind?_eq_leaf.mpr hq]
    exact nofun
  have hinterior : l.kind? p = some .interior := by
    rw [← h.kind?]
    exact h.sound.kind?_of_longer hlonger
  exact (Ledger.kind?_eq_interior.mp hinterior).1 hp

end Represents

/-! ### Adding a text -/

/-- What a compiler gives of the text of a key, and the signature it has. -/
theorem agree_compileText (compiler : Compiler) (key locale value : Text) :
    Except.Agree (fun compiled s => compiled.signature = s)
      (compileText compiler key locale value).outcome
      (Ledger.signatureOf compiler key locale value) := by
  unfold compileText Ledger.signatureOf
  cases compiler value with
  | ok compiled => exact .ok rfl
  | error f =>
    cases f with
    | template f => exact .error _
    | crash c => exact .error _

section AddText
variable {c : Catalogue} {l : Ledger} (h : c.Represents l) {path : KeyPath} {arena : Arena}
  {parent : Nat} (hd : Descended c.arena [] path.parent.segments arena parent)
include h hd

/-- What the tree has at a path on the way is what the ledger tells, or an interior node. -/
theorem Represents.kind?_descended (p : KeyPath) :
    arena.kind? p =
      if l.kind? p = none ∧ p ∈ path.ancestors then some .interior else l.kind? p := by
  rw [hd.kind?, KeyPath.ancestors_eq_beginnings]
  simp only [h.kind?]

theorem Represents.kind?_child {segment : Segment} (hpath : path = path.parent.child segment) :
    ((arena.child? parent segment).bind arena.node?).map Node.kind = l.kind? path := by
  rw [← Arena.kind?_concat hd.reached, List.nil_append]
  show arena.kind? (path.parent.child segment) = _
  rw [← hpath, h.kind?_descended hd, if_neg fun hboth => path.not_mem_ancestors_self hboth.2]

theorem Represents.defined {segment : Segment} (hpath : path = path.parent.child segment)
    (hfree : arena.child? parent segment = none) (hkey : c.entries.get? path.key = none)
    (locale : Text) (compiled : CompiledTemplate) :
    (c.defined (arena.addChild parent segment (.leaf path)).1 path locale compiled).Represents
      (l ++ [(path, compiled.signature)]) := by
  have hinterior : arena.kind? ⟨path.parent.segments⟩ = some .interior := hd.interior
  have happendable : arena.Appendable parent path.parent segment (.leaf path) :=
    hd.sound.appendable hd.reached hinterior hfree hpath rfl
  let entry := Entry.add { path, signature := compiled.signature } locale compiled
  have hentries : c.entries.put path.key entry = c.entries ++ [(path.key, entry)] :=
    OrderedMap.put_of_get?_eq_none hkey
  constructor
  · show (c.entries.put path.key entry).map _ = _
    rw [hentries, List.map_append, ← h.ledger]
    rfl
  · show ∀ e ∈ c.entries.put path.key entry, e.1 = e.2.key
    rw [hentries]
    exact List.forall_mem_append.mpr ⟨h.keyed, List.forall_mem_singleton.mpr rfl⟩
  · show (c.entries.put path.key entry).keys.Nodup
    have hkeys : (c.entries.put path.key entry).keys = c.entries.keys ++ [path.key] := by
      rw [hentries]
      exact List.map_append
    rw [hkeys]
    exact List.nodup_append.mpr ⟨h.nodup, List.pairwise_singleton _ _, by
      intro key hmem other hother
      rw [List.mem_singleton.mp hother]
      rintro rfl
      exact OrderedMap.get?_eq_none.mp hkey hmem⟩
  · exact Arena.Sound.addChild happendable hd.sound
  · intro p
    show (arena.addChild parent segment (.leaf path)).1.kind? p = _
    rw [Arena.Sound.kind?_addChild happendable hd.sound, ← hpath, Ledger.kind?_append,
      h.kind?_descended hd]
    rfl

theorem Represents.extended (hpath : path ∈ l.keys) {e : Entry}
    (he : c.entries.get? path.key = some e) (hep : e.path = path) (locale : Text)
    (compiled : CompiledTemplate) : (c.extended arena e locale compiled).Represents l := by
  have hget : c.entries.get? e.key = some e := by
    rw [← he, ← hep]
    rfl
  constructor
  · rw [← h.ledger]
    exact OrderedMap.map_put hget rfl
  · intro entry hentry
    rcases OrderedMap.mem_put hentry with rfl | hold
    · rfl
    · exact h.keyed entry hold
  · show (c.entries.put e.key (e.add locale compiled)).keys.Nodup
    rw [OrderedMap.keys_put_of_get?_eq_some hget]
    exact h.nodup
  · exact hd.sound
  · intro p
    show arena.kind? p = l.kind? p
    rw [h.kind?_descended hd, if_neg]
    rintro ⟨hnone, hp⟩
    exact (Ledger.kind?_eq_none.mp hnone).2 (Or.inr ⟨path, hpath, hp⟩)

theorem Represents.define {segment : Segment} (hpath : path = path.parent.child segment)
    (hfree : arena.child? parent segment = none) (compiler : Compiler) (locale value : Text) :
    Except.Agree Represents
      (define compiler c arena parent segment path locale value).outcome
      (if ∃ q ∈ l.keys, q.key = path.key then .error (.problem (.keyCollision path.key locale))
        else (Ledger.signatureOf compiler path.key locale value).bind fun actual =>
          .ok (l ++ [(path, actual)])) := by
  unfold Catalogue.define
  cases hkey : c.entries.get? path.key with
  | some e =>
    have hcollision : ∃ q ∈ l.keys, q.key = path.key := by
      rw [← not_not (a := ∃ q ∈ l.keys, q.key = path.key), ← h.get?_eq_none, hkey]
      exact nofun
    rw [if_pos hcollision]
    exact .error _
  | none =>
    rw [if_neg (h.get?_eq_none.mp hkey)]
    simp only [Report.outcome_bind]
    refine (agree_compileText compiler path.key locale value).bind fun compiled s hs => ?_
    subst hs
    exact .ok (h.defined hd hpath hfree hkey locale compiled)

theorem Represents.extend (hmem : path ∈ l.keys) {e : Entry}
    (he : c.entries.get? path.key = some e) (hep : e.path = path) (compiler : Compiler)
    (locale value : Text) :
    Except.Agree Represents (extend compiler c arena e locale value).outcome
      ((Ledger.signatureOf compiler path.key locale value).bind fun actual =>
        if actual = e.signature then .ok l
        else .error (.problem (.signatureMismatch path.key locale e.signature.describe
          actual.describe))) := by
  have hkey : e.key = path.key := by rw [← hep]; rfl
  unfold Catalogue.extend
  simp only [Report.outcome_bind, hkey]
  refine (agree_compileText compiler path.key locale value).bind fun compiled s hs => ?_
  subst hs
  by_cases hsame : compiled.signature = e.signature
  · rw [if_pos (Signature.isCompatible_iff.mpr hsame.symm), if_pos hsame]
    have hextended := h.extended hd hmem he hep locale compiled
    unfold Catalogue.extended at hextended
    rw [hkey] at hextended
    exact .ok hextended
  · rw [if_neg fun hc => hsame (Signature.isCompatible_iff.mp hc).symm, if_neg hsame]
    exact .error _

end AddText

section
variable {c : Catalogue} {l : Ledger} (h : c.Represents l)
include h

theorem Represents.firstLeaf?_eq (path : KeyPath) :
    firstLeaf? c.arena [] path.parent.segments = path.ancestors.find? (· ∈ l.keys) := by
  unfold firstLeaf?
  rw [← KeyPath.ancestors_eq_beginnings]
  congr 1
  funext p
  rw [h.kind?]
  simp only [Ledger.kind?_eq_leaf]

/-- **A text is accepted by the catalogue and by the ledger, or refused by both alike.** -/
theorem Represents.addText {path : KeyPath} (hp : path ≠ .root) (compiler : Compiler)
    (locale value : Text) :
    Except.Agree Represents (c.addText compiler path locale value).outcome
      (l.accept compiler locale path value) := by
  obtain ⟨segment, hlast, hpath⟩ := KeyPath.exists_eq_child hp
  have hdescend := descend_spec h.sound rfl h.sound.kind?_root path.parent.segments
  unfold Ends at hdescend
  rw [h.firstLeaf?_eq] at hdescend
  unfold Catalogue.addText Ledger.accept
  rw [hlast]
  cases hfind : path.ancestors.find? (· ∈ l.keys) with
  | some ancestor =>
    rw [hfind] at hdescend
    simp only [hdescend]
    exact .error _
  | none =>
    rw [hfind] at hdescend
    obtain ⟨arena, parent, hok, hd⟩ := hdescend
    simp only [hok]
    have hkind := h.kind?_child hd hpath
    cases hfound : (arena.child? parent segment).bind arena.node? with
    | none =>
      rw [hfound] at hkind
      obtain ⟨hmem, hbegins⟩ := Ledger.kind?_eq_none.mp hkind.symm
      have hfree : arena.child? parent segment = none := hd.sound.child?_eq_none hfound
      rw [if_neg fun hq => hbegins (Or.inr hq), OrderedMap.get?_eq_none.mpr hmem]
      exact h.define hd hpath hfree compiler locale value
    | some n =>
      rw [hfound] at hkind
      cases n with
      | interior at_ children =>
        obtain ⟨-, hbegins⟩ := Ledger.kind?_eq_interior.mp hkind.symm
        rw [if_pos (hbegins.resolve_left hp)]
        exact .error _
      | leaf at_ =>
        have hmem := Ledger.kind?_eq_leaf.mp hkind.symm
        obtain ⟨e, he, hep, hget⟩ := h.exists_entry hmem
        rw [if_neg (by rintro ⟨q, hq, hpq⟩; exact h.not_mem_ancestors hmem hq hpq), hget]
        simp only [he]
        exact h.extend hd hmem he hep compiler locale value

end

/-! ### Adding documents -/

section Documents
variable (compiler : Compiler)

theorem addVisits_append (locale : Text) (c : Catalogue) (count : Nat) (first rest : List Visit) :
    (addVisits compiler locale c count (first ++ rest)).outcome =
      (addVisits compiler locale c count first).outcome.bind fun r =>
        (addVisits compiler locale r.1 r.2 rest).outcome := by
  induction first generalizing c count with
  | nil => rfl
  | cons visit first ih =>
    cases visit with
    | text path value =>
      simp only [List.cons_append, addVisits, Report.outcome_bind, ih]
      cases (c.addText compiler path locale value).outcome <;> rfl
    | skipped path typeName =>
      simp only [List.cons_append, addVisits, Report.outcome_bind, ih]
      rfl
    | refused problem => rfl

/-- What is left after a walk represents what is left of the ledger. -/
def Leaves (r : Catalogue × Nat) (l : Ledger) : Prop := r.1.Represents l

variable (limit : Int) (locale : Text)

mutual

/-- **A tree is accepted by the catalogue and by the ledger, or refused by both alike.** -/
theorem Represents.addTree : ∀ (tree : Datum Foreign) (depth : Nat) (path : KeyPath) (c : Catalogue)
    (l : Ledger) (count : Nat), c.Represents l → (path ≠ .root ∨ tree.isContainer = true) →
      Except.Agree Leaves
        (addVisits compiler locale c count (tree.visits ⟨limit, depth⟩ path)).outcome
        (Ledger.acceptTree compiler limit locale depth path l tree)
  | .text value, depth, path, c, l, count, h, hp => by
    have hroot : path ≠ .root := hp.resolve_right nofun
    rw [Datum.visits, Ledger.acceptTree, addVisits, Report.outcome_bind]
    exact (h.addText hroot compiler locale value).bind_left fun _ _ hnext => .ok hnext
  | .map entries, depth, path, c, l, count, h, _ => by
    rw [Datum.visits, Ledger.acceptTree, NestingGuard.enter]
    by_cases hdeep : limit ≤ depth
    · rw [if_pos hdeep, if_pos hdeep]
      exact .error _
    · rw [if_neg hdeep, if_neg hdeep]
      exact Represents.addEntries entries (depth + 1) path c l count h
  | .list items, depth, path, c, l, count, h, _ => by
    rw [Datum.visits, Ledger.acceptTree, NestingGuard.enter]
    by_cases hdeep : limit ≤ depth
    · rw [if_pos hdeep, if_pos hdeep]
      exact .error _
    · rw [if_neg hdeep, if_neg hdeep]
      exact Represents.addItems items (depth + 1) path 0 c l count h
  | .null, depth, path, c, l, count, h, _ => by
    rw [Datum.visits, Ledger.acceptTree]
    exact .ok h
  | .bool b, depth, path, c, l, count, h, _ => by
    rw [Datum.visits, Ledger.acceptTree]
    exact .ok h
  | .number n, depth, path, c, l, count, h, _ => by
    rw [Datum.visits, Ledger.acceptTree]
    exact .ok h
  | .tuple items, depth, path, c, l, count, h, _ => by
    rw [Datum.visits, Ledger.acceptTree]
    exact .ok h
  | .other value, depth, path, c, l, count, h, _ => by
    rw [Datum.visits, Ledger.acceptTree]
    exact .ok h

theorem Represents.addItems : ∀ (items : List (Datum Foreign)) (depth : Nat) (path : KeyPath)
    (position : Nat) (c : Catalogue) (l : Ledger) (count : Nat), c.Represents l →
      Except.Agree Leaves
        (addVisits compiler locale c count
          (Datum.visitsOfItems ⟨limit, depth⟩ path position items)).outcome
        (Ledger.acceptItems compiler limit locale depth path position l items)
  | [], depth, path, position, c, l, count, h => by
    rw [Datum.visitsOfItems, Ledger.acceptItems]
    exact .ok h
  | item :: rest, depth, path, position, c, l, count, h => by
    have hitem := Represents.addTree item depth (path.child (.name (Numeral.ofNat position))) c l
      count h (Or.inl (path.child_ne_root _))
    rw [Datum.visitsOfItems, Ledger.acceptItems, addVisits_append]
    exact hitem.bind fun r l h =>
      Represents.addItems rest depth path (position + 1) r.1 l r.2 h

theorem Represents.addEntries : ∀ (entries : List (DatumKey × Datum Foreign)) (depth : Nat)
    (path : KeyPath) (c : Catalogue) (l : Ledger) (count : Nat), c.Represents l →
      Except.Agree Leaves
        (addVisits compiler locale c count
          (Datum.visitsOfEntries ⟨limit, depth⟩ path entries)).outcome
        (Ledger.acceptEntries compiler limit locale depth path l entries)
  | [], depth, path, c, l, count, h => by
    rw [Datum.visitsOfEntries, Ledger.acceptEntries]
    exact .ok h
  | (key, value) :: rest, depth, path, c, l, count, h => by
    have hvalue := Represents.addTree value depth (path.child (.name key.toText)) c l count h
      (Or.inl (path.child_ne_root _))
    rw [Datum.visitsOfEntries, Ledger.acceptEntries, addVisits_append]
    exact hvalue.bind fun r l h => Represents.addEntries rest depth path r.1 l r.2 h

end

theorem Represents.addDocument {c : Catalogue} {l : Ledger} (h : c.Represents l)
    (document : Document) :
    Except.Agree Represents (addDocument compiler { limit } c document).outcome
      (Ledger.acceptDocument compiler limit l document) := by
  unfold Catalogue.addDocument Ledger.acceptDocument
  by_cases hcontainer : document.tree.isContainer = true
  · rw [if_pos hcontainer, if_pos hcontainer]
    have hstarted : Represents { c with locales := c.locales ++ [document.locale] } l :=
      ⟨h.ledger, h.keyed, h.nodup, h.sound, h.kind?⟩
    have htree := Represents.addTree compiler limit document.locale document.tree 0 .root _ l 0
      hstarted (Or.inr hcontainer)
    simp only [Report.outcome_bind]
    exact htree.bind_left fun _ _ hnext => .ok hnext
  · rw [if_neg hcontainer, if_neg hcontainer]
    exact .error _

theorem Represents.addDocuments {c : Catalogue} {l : Ledger} (h : c.Represents l)
    (documents : List Document) :
    Except.Agree Represents (addDocuments compiler { limit } c documents).outcome
      (Ledger.acceptDocuments compiler limit l documents) := by
  induction documents generalizing c l with
  | nil => exact .ok h
  | cons document rest ih =>
    rw [Catalogue.addDocuments, Ledger.acceptDocuments, Report.outcome_bind]
    exact (h.addDocument compiler limit document).bind fun _ _ hnext => ih hnext

end Documents

theorem agree_merge (compiler : Compiler) (documents : List Document) :
    Except.Agree Represents (merge compiler documents).outcome
      (Ledger.acceptDocuments compiler 100 [] documents) := by
  have hdocuments := represents_empty.addDocuments compiler 100 documents
  unfold merge
  rw [Report.outcome_bind]
  exact hdocuments.bind_left fun _ _ h => .ok h

/-- **What a merge accepts and how it fails is told by the ledger**, under any limit on the nesting
and under the usual one. -/
theorem ledger_addDocuments (compiler : Compiler) (documents : List Document) :
    (∀ requested, (addDocuments compiler (.ofLimit requested) {} documents).outcome.map ledger =
        Ledger.acceptDocuments compiler (NestingGuard.fit requested) [] documents) ∧
      (merge compiler documents).outcome.map ledger =
        Ledger.acceptDocuments compiler 100 [] documents := by
  constructor
  · intro requested
    have hdocuments := represents_empty.addDocuments compiler (NestingGuard.fit requested) documents
    exact Except.Agree.map_eq (hdocuments.imp fun _ _ h => h.ledger)
  · exact Except.Agree.map_eq ((agree_merge compiler documents).imp fun _ _ h => h.ledger)

end Catalogue

end Phrasebook
