import Phrasebook.Proofs.Schema.Laying
import Phrasebook.Proofs.Schema.Refinement
import Phrasebook.Proofs.Schema.Translations

/-! # How a catalogue grows

Whatever an accepted translation does to a catalogue that represents a ledger, it is one of two
things (`Accepted`): it defines a new key at the end of a way down the tree, or it adds a locale to
the key of its path. Either way its path is laid down the tree (`Represents.laid`). -/

namespace Phrasebook.Catalogue

/-- **What an accepted translation does.** -/
inductive Accepted (compiler : Compiler) (c : Catalogue) (t : Translation) : Catalogue → Prop where
  /-- It defines a new key, a leaf below the end of the way down. -/
  | defined {arena : Arena} {parent : Nat} {segment : Segment} {compiled : CompiledTemplate}
      (descended : Descended c.arena [] t.path.parent.segments arena parent)
      (rooted : arena.Rooted) (path : t.path = t.path.parent.child segment)
      (free : arena.child? parent segment = none) (key : c.entries.get? t.path.key = none)
      (compiles : compiler t.text = .ok compiled) :
      Accepted compiler c t
        (c.defined (arena.addChild parent segment (.leaf t.path)).1 t.path t.locale compiled)
  /-- It adds a locale to the key of its path. -/
  | extended {arena : Arena} {parent : Nat} {e : Entry} {compiled : CompiledTemplate}
      (descended : Descended c.arena [] t.path.parent.segments arena parent)
      (rooted : arena.Rooted) (key : c.entries.get? t.path.key = some e) (path : e.path = t.path)
      (compiles : compiler t.text = .ok compiled) (signature : compiled.signature = e.signature) :
      Accepted compiler c t (c.extended arena e t.locale compiled)

theorem mem_ledger_keys {c : Catalogue} {p : KeyPath} :
    p ∈ c.ledger.keys ↔ ∃ entry ∈ c.entries, entry.2.path = p := by
  unfold ledger OrderedMap.keys
  rw [List.map_map, List.mem_map]
  rfl

section Accepted
variable {compiler : Compiler} {c c' : Catalogue} {l : Ledger} {t : Translation}

/-- **How a translation is added**: behind the way down to the parent of its path there is nothing,
and the key is new, or there is the leaf of its key. -/
theorem Represents.addText_eq_ok (h : c.Represents l) (hrooted : c.arena.Rooted)
    (hok : (c.addText compiler t.path t.locale t.text).outcome = .ok c') :
    ∃ segment arena parent compiled, t.path = t.path.parent.child segment ∧
      c.arena.Laid t.path.parent.segments arena parent ∧
        Descended c.arena [] t.path.parent.segments arena parent ∧
          compiler t.text = .ok compiled ∧
            ((arena.child? parent segment = none ∧ c.entries.get? t.path.key = none ∧
                c' = c.defined (arena.addChild parent segment (.leaf t.path)).1 t.path t.locale
                  compiled) ∨
              ∃ child e, arena.child? parent segment = some child ∧
                c.entries.get? t.path.key = some e ∧ e.path = t.path ∧
                  compiled.signature = e.signature ∧
                    c' = c.extended arena e t.locale compiled) := by
  have hspec := descend_spec h.sound rfl h.sound.kind?_root t.path.parent.segments
  unfold Catalogue.addText at hok
  cases hlast : t.path.segments.getLast? with
  | none =>
    rw [hlast] at hok
    cases hok
  | some segment =>
    have hroot : t.path ≠ .root := by
      intro hpath
      rw [hpath] at hlast
      cases hlast
    obtain ⟨last, hlast', hpath⟩ := KeyPath.exists_eq_child hroot
    rw [hlast] at hlast'
    cases hlast'
    rw [hlast] at hok
    unfold Ends at hspec
    cases hfirst : firstLeaf? c.arena [] t.path.parent.segments with
    | some leaf =>
      rw [hfirst] at hspec
      simp only [hspec] at hok
      cases hok
    | none =>
      rw [hfirst] at hspec
      obtain ⟨arena, parent, hdescend, hd⟩ := hspec
      have hlaid := Arena.laid_descend hrooted .root h.sound.kind?_root hdescend
      have hkind := h.kind?_child hd hpath
      simp only [hdescend] at hok
      cases hfound : (arena.child? parent segment).bind arena.node? with
      | none =>
        simp only [hfound] at hok
        obtain ⟨hkey, compiled, hcompiled, rfl⟩ := define_eq_ok hok
        exact ⟨segment, arena, parent, compiled, hpath, hlaid, hd, hcompiled,
          .inl ⟨hd.sound.child?_eq_none hfound, hkey, rfl⟩⟩
      | some n =>
        rw [hfound] at hkind
        cases n with
        | interior path children =>
          simp only [hfound] at hok
          cases hok
        | leaf path =>
          obtain ⟨e, he, hep, -⟩ := h.exists_entry (Ledger.kind?_eq_leaf.mp hkind.symm)
          obtain ⟨child, hchild, -⟩ := Option.bind_eq_some_iff.mp hfound
          simp only [hfound, he] at hok
          obtain ⟨compiled, hcompiled, hs, rfl⟩ := extend_eq_ok hok
          exact ⟨segment, arena, parent, compiled, hpath, hlaid, hd, hcompiled,
            .inr ⟨child, e, hchild, he, hep, (Signature.isCompatible_iff.mp hs).symm, rfl⟩⟩

theorem Represents.accepted (h : c.Represents l) (hrooted : c.arena.Rooted)
    (hok : (c.addText compiler t.path t.locale t.text).outcome = .ok c') :
    Accepted compiler c t c' := by
  obtain ⟨segment, arena, parent, compiled, hpath, hlaid, hd, hcompiled,
    ⟨hfree, hkey, rfl⟩ | ⟨child, e, -, he, hep, hs, rfl⟩⟩ := h.addText_eq_ok hrooted hok
  · exact .defined hd (hlaid.rooted hrooted).1 hpath hfree hkey hcompiled
  · exact .extended hd (hlaid.rooted hrooted).1 he hep hcompiled hs

/-- **The path of a translation that is added is laid down the tree.** -/
theorem Represents.laid (h : c.Represents l) (hrooted : c.arena.Rooted)
    (hok : (c.addText compiler t.path t.locale t.text).outcome = .ok c') :
    ∃ id, c.arena.Laid t.path.segments c'.arena id := by
  obtain ⟨segment, arena, parent, compiled, hpath, hlaid, hd, -,
    ⟨hfree, -, rfl⟩ | ⟨child, e, hchild, -, -, -, rfl⟩⟩ := h.addText_eq_ok hrooted hok
  all_goals
    have hsegments : t.path.segments = t.path.parent.segments ++ [segment] :=
      congrArg KeyPath.segments hpath
    rw [hsegments]
  · have hf : arena.Appendable parent t.path.parent segment (.leaf t.path) :=
      hd.sound.appendable hd.reached hd.interior hfree hpath rfl
    exact ⟨_, .new hlaid hf⟩
  · exact ⟨child, .old hlaid hchild⟩

theorem Accepted.rooted (h : Accepted compiler c t c') : c'.arena.Rooted := by
  cases h with
  | defined hd hrooted hpath hfree hkey hcompiled =>
    exact hrooted.addChild (hd.sound.appendable hd.reached hd.interior hfree hpath rfl)
  | extended hd hrooted hkey hpath hcompiled hs => exact hrooted

/-- **What an accepted translation leaves** represents the ledger of the entries, and its path is a
key there, as are those that were keys before. -/
theorem Accepted.represents (hc : c.Represents c.ledger) (h : Accepted compiler c t c') :
    c'.Represents c'.ledger ∧
      ∀ p, p ∈ c'.ledger.keys ↔ p ∈ c.ledger.keys ∨ t.path = p := by
  cases h with
  | @defined arena parent segment compiled hd hrooted hpath hfree hkey hcompiled =>
    have hnext := hc.defined hd hpath hfree hkey t.locale compiled
    refine ⟨by rwa [← hnext.ledger] at hnext, fun p => ?_⟩
    rw [hnext.ledger, Ledger.keys_append, List.mem_append, List.mem_singleton, eq_comm (a := p)]
  | @extended arena parent e compiled hd hrooted hkey hpath hcompiled hs =>
    have hmem : t.path ∈ c.ledger.keys :=
      mem_ledger_keys.mpr ⟨_, OrderedMap.mem_of_get? hkey, hpath⟩
    have hnext := hc.extended hd hmem hkey hpath t.locale compiled
    refine ⟨by rwa [← hnext.ledger] at hnext, fun p => ?_⟩
    rw [hnext.ledger]
    constructor
    · exact Or.inl
    · rintro (hp | rfl)
      · exact hp
      · exact hmem

end Accepted

end Phrasebook.Catalogue
