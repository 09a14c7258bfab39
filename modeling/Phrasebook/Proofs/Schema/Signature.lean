import Phrasebook.Schema.Signature

/-! # Compatible signatures

A signature is told by its names and by its formatters, as it lists each name once. So two locales
can share an interface only if their signatures are equal (`isCompatible_iff`). -/

namespace Phrasebook

namespace Parameter

theorem isFormatter_iff_mem {p : Parameter} {ps : List Parameter}
    (hless : ∀ q ∈ ps, p.name < q.name) :
    p.isFormatter = true ↔ p.name ∈ ((p :: ps).filter (·.isFormatter)).map (·.name) := by
  rw [List.mem_map]
  constructor
  · intro hp
    exact ⟨p, List.mem_filter.mpr ⟨List.mem_cons_self, hp⟩, rfl⟩
  · rintro ⟨q, hq, hname⟩
    obtain ⟨hmem, hkind⟩ := List.mem_filter.mp hq
    rcases List.mem_cons.mp hmem with rfl | hmem
    · exact hkind
    · have hlt := hless q hmem
      rw [hname] at hlt
      exact absurd hlt (List.lt_irrefl _)

theorem eq_of_names : ∀ (ps qs : List Parameter),
    ps.Pairwise (fun p q => p.name < q.name) → qs.Pairwise (fun p q => p.name < q.name) →
      ps.map (·.name) = qs.map (·.name) →
        (ps.filter (·.isFormatter)).map (·.name) = (qs.filter (·.isFormatter)).map (·.name) →
          ps = qs
  | [], qs, _, _, hnames, _ => (List.map_eq_nil_iff.mp hnames.symm).symm
  | p :: ps, [], _, _, hnames, _ => by cases hnames
  | p :: ps, q :: qs, hp, hq, hnames, hformatters => by
    obtain ⟨hpless, hps⟩ := List.pairwise_cons.mp hp
    obtain ⟨hqless, hqs⟩ := List.pairwise_cons.mp hq
    obtain ⟨hname, hrest⟩ := List.cons.inj hnames
    have hkind : p.isFormatter = q.isFormatter := by
      rw [Bool.eq_iff_iff, isFormatter_iff_mem hpless, isFormatter_iff_mem hqless, hformatters]
      exact Iff.of_eq (congrArg (· ∈ _) hname)
    have htail : (ps.filter (·.isFormatter)).map (·.name) =
        (qs.filter (·.isFormatter)).map (·.name) := by
      cases hqkind : q.isFormatter with
      | false =>
        rw [hqkind] at hkind
        rwa [List.filter_cons_of_neg (by simp [hkind]),
          List.filter_cons_of_neg (by simp [hqkind])] at hformatters
      | true =>
        rw [hqkind] at hkind
        rw [List.filter_cons_of_pos hkind, List.filter_cons_of_pos hqkind] at hformatters
        exact (List.cons.inj hformatters).2
    have hhead : p = q := by
      cases p
      cases q
      cases hname
      cases hkind
      rfl
    rw [hhead, eq_of_names ps qs hps hqs hrest htail]

end Parameter

/-- **Two signatures are compatible only if they are equal.** -/
theorem Signature.isCompatible_iff {a b : Signature} : a.isCompatible b = true ↔ a = b := by
  unfold isCompatible
  rw [Bool.and_eq_true, decide_eq_true_eq, decide_eq_true_eq]
  constructor
  · rintro ⟨hnames, hformatters⟩
    have hparameters := Parameter.eq_of_names _ _ a.sorted b.sorted hnames hformatters
    cases a
    cases b
    cases hparameters
    rfl
  · rintro rfl
    exact ⟨rfl, rfl⟩

end Phrasebook
