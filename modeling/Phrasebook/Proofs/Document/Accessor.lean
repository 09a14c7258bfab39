import Phrasebook.Proofs.Document.KeyPath
import Phrasebook.Proofs.Json.Token
import Phrasebook.Proofs.Script.Scan

/-! # Accessors and keys read back

An accessor is a chain of subscripts. A subscript tells where it ends, whatever follows
(`Segment.subscript?_append`), so the chain is read back as the steps of the path
(`KeyPath.read?_accessor`); a name is read as a name and an index as an index, also where both have
the same text. A key only tells the path if its steps are names without points
(`KeyPath.segments_eq_split_key`). -/

namespace Phrasebook

/-! ### Numerals -/

namespace Numeral

/-- The natural number at the front of a text, and what is left. -/
def natural? (t : Text) : Option (Nat × Text) :=
  if t.takeWhile CodePoint.isDigit = [] then none
  else some (toNat (t.takeWhile CodePoint.isDigit), t.dropWhile CodePoint.isDigit)

/-- The whole number at the front of a text, and what is left. -/
def integer? (t : Text) : Option (Int × Text) :=
  match Text.dropBeginning? "-" t with
  | some t => (natural? t).map (Prod.map (fun n : Nat => -(n : Int)) id)
  | none => (natural? t).map (Prod.map Int.ofNat id)

section Read
variable {c : CodePoint} (hc : c.isDigit = false) (rest : Text)
include hc

theorem natural?_append (n : Nat) : natural? (ofNat n ++ c :: rest) = some (n, c :: rest) := by
  have hdigits : ∀ d ∈ ofNat n, d.isDigit = true := fun d hd => Json.isDigit_of_mem_ofNat hd
  have htake : (ofNat n ++ c :: rest).takeWhile CodePoint.isDigit = ofNat n := by
    rw [List.takeWhile_append_of_pos hdigits, List.takeWhile_cons_of_neg (by simp [hc]),
      List.append_nil]
  have hdrop : (ofNat n ++ c :: rest).dropWhile CodePoint.isDigit = c :: rest := by
    rw [List.dropWhile_append_of_pos hdigits, List.dropWhile_cons_of_neg (by simp [hc])]
  unfold natural?
  rw [htake, hdrop, if_neg (Json.ofNat_ne_nil n), Json.toNat_ofNat]

/-- **A whole number is read**, up to what is no digit. -/
theorem integer?_append (n : Int) : integer? (ofInt n ++ c :: rest) = some (n, c :: rest) := by
  unfold integer?
  cases n with
  | ofNat n =>
    obtain ⟨first, others, hnumeral⟩ := List.exists_cons_of_ne_nil (Json.ofNat_ne_nil n)
    have hfirst : CodePoint.ofChar '-' ≠ first := by
      have hdigit : first.isDigit = true :=
        Json.isDigit_of_mem_ofNat (hnumeral ▸ List.mem_cons_self)
      rintro rfl
      cases hdigit
    have hsign : Text.dropBeginning? "-" (ofInt (.ofNat n) ++ c :: rest) = none := by
      change Text.dropBeginning? "-" (ofNat n ++ c :: rest) = none
      rw [hnumeral]
      exact Text.dropBeginning?_cons_of_ne hfirst [] _
    have hvalue : natural? (ofInt (.ofNat n) ++ c :: rest) = some (n, c :: rest) :=
      natural?_append hc rest n
    rw [hsign, hvalue]
    rfl
  | negSucc n =>
    have hsign : Text.dropBeginning? "-" (ofInt (.negSucc n) ++ c :: rest) =
        some (ofNat (n + 1) ++ c :: rest) :=
      Text.dropBeginning?_append [CodePoint.ofChar '-'] _
    rw [hsign]
    simp only [natural?_append hc, Option.map_some]
    rfl

end Read

end Numeral

/-! ### Subscripts -/

namespace Segment

/-- **The step that a subscript spells** at the front of a text, and what is left: a string literal
spells a name, a numeral an index. -/
def subscript? (t : Text) : Option (Segment × Text) :=
  (Text.dropBeginning? "[" t).bind fun t =>
    (if t.head? = some CodePoint.doubleQuote then
        (Script.string? t).map (Prod.map Segment.name id)
      else (Numeral.integer? t).map (Prod.map Segment.index id)).bind fun (s, t) =>
        (Text.dropBeginning? "]" t).map (s, ·)

/-- **A subscript is read**, and what follows is left. -/
theorem subscript?_append (s : Segment) (rest : Text) :
    subscript? (s.subscript ++ rest) = some (s, rest) := by
  have hend : ∀ t : Text, Text.dropBeginning? "]" (CodePoint.ofChar ']' :: t) = some t :=
    fun t => Text.dropBeginning?_append [CodePoint.ofChar ']'] t
  cases s with
  | name t =>
    have htext : (Segment.name t).subscript ++ rest =
        "[" ++ (t.literal ++ CodePoint.ofChar ']' :: rest) := by
      rw [subscript, List.append_assoc, List.append_assoc]
      rfl
    have hquote : (t.literal ++ CodePoint.ofChar ']' :: rest).head? = some CodePoint.doubleQuote :=
      rfl
    unfold subscript?
    rw [htext, Text.dropBeginning?_append, Option.bind_some, if_pos hquote,
      Script.string?_literal t (by decide)]
    simp only [Option.map_some, Prod.map_apply, id_eq, Option.bind_some, hend]
  | index n =>
    have htext : (Segment.index n).subscript ++ rest =
        "[" ++ (Numeral.ofInt n ++ CodePoint.ofChar ']' :: rest) := by
      rw [subscript, List.append_assoc, List.append_assoc]
      rfl
    have hquote : (Numeral.ofInt n ++ CodePoint.ofChar ']' :: rest).head? ≠
        some CodePoint.doubleQuote := by
      obtain ⟨first, others, hnumeral, hfirst⟩ := Json.exists_ofInt_eq_cons n
      rw [hnumeral, List.cons_append, List.head?_cons]
      rintro ⟨⟩
      rcases hfirst with hdigit | hsign
      · cases hdigit
      · exact absurd hsign (by decide)
    unfold subscript?
    rw [htext, Text.dropBeginning?_append, Option.bind_some, if_neg hquote,
      Numeral.integer?_append (by decide)]
    simp only [Option.map_some, Prod.map_apply, id_eq, Option.bind_some, hend]

theorem subscript_ne_nil (s : Segment) : s.subscript ≠ [] := by
  cases s <;> exact List.cons_ne_nil _ _

end Segment

/-! ### Paths -/

namespace KeyPath

/-- The steps that a text of subscripts spells, up to a number of them. -/
def segments? : Nat → Text → Option (List Segment)
  | 0, t => if t = [] then some [] else none
  | count + 1, t =>
    if t = [] then some []
    else (Segment.subscript? t).bind fun (s, t) => (segments? count t).map (s :: ·)

/-- **The path that an accessor spells.** -/
def read? (t : Text) : Option KeyPath := (segments? t.length t).map KeyPath.mk

theorem segments?_subscripts {segments : List Segment} {count : Nat}
    (h : segments.length ≤ count) :
    segments? count (segments.flatMap Segment.subscript) = some segments := by
  induction segments generalizing count with
  | nil => cases count <;> rfl
  | cons s rest ih =>
    obtain ⟨count, rfl⟩ : ∃ n, count = n + 1 := Nat.exists_eq_add_one.mpr (by
      rw [List.length_cons] at h
      omega)
    have hne : s.subscript ++ rest.flatMap Segment.subscript ≠ [] :=
      List.append_ne_nil_of_left_ne_nil s.subscript_ne_nil _
    rw [List.flatMap_cons, segments?, if_neg hne, Segment.subscript?_append]
    simp only [Option.bind_some, ih (Nat.le_of_succ_le_succ h), Option.map_some]

theorem depth_le_length_accessor (p : KeyPath) : p.segments.length ≤ p.accessor.length := by
  unfold accessor
  induction p.segments with
  | nil => exact Nat.le_refl 0
  | cons s rest ih =>
    have hpos := List.length_pos_of_ne_nil s.subscript_ne_nil
    rw [List.flatMap_cons, List.length_append, List.length_cons]
    omega

/-- **An accessor is read back** as its path. -/
theorem read?_accessor (p : KeyPath) : read? p.accessor = some p := by
  have hsegments : segments? p.accessor.length p.accessor = some p.segments :=
    segments?_subscripts p.depth_le_length_accessor
  unfold read?
  rw [hsegments]
  rfl

/-! ### Keys -/

/-- The steps of a path are names without points. -/
def Undotted (p : KeyPath) : Prop :=
  ∀ s ∈ p.segments, ∃ name : Text, s = .name name ∧ CodePoint.ofChar '.' ∉ name

/-- **The pieces of a key between points** are the steps of the path, if these have no points. -/
theorem segments_eq_split_key {p : KeyPath} (hroot : p ≠ .root) (h : p.Undotted) :
    p.segments = (Text.split (CodePoint.ofChar '.') p.key).map .name := by
  have hne : p.segments.map Segment.toText ≠ [] :=
    fun hnil => hroot (ext (List.map_eq_nil_iff.mp hnil))
  have hpoints : ∀ t ∈ p.segments.map Segment.toText, CodePoint.ofChar '.' ∉ t := by
    intro t ht
    obtain ⟨s, hs, rfl⟩ := List.mem_map.mp ht
    obtain ⟨name, rfl, hname⟩ := h s hs
    exact hname
  have hsteps : ∀ s ∈ p.segments, Segment.name s.toText = s := by
    intro s hs
    obtain ⟨name, rfl, -⟩ := h s hs
    rfl
  have hkey : Text.split (CodePoint.ofChar '.') p.key = p.segments.map Segment.toText :=
    Text.split_join hne hpoints
  rw [hkey, List.map_map]
  exact ((List.map_congr_left hsteps).trans (List.map_id _)).symm

theorem eq_of_key_eq {p q : KeyPath} (hp : p ≠ .root) (hq : q ≠ .root) (hpu : p.Undotted)
    (hqu : q.Undotted) (h : p.key = q.key) : p = q := by
  refine ext ?_
  rw [segments_eq_split_key hp hpu, segments_eq_split_key hq hqu, h]

end KeyPath

end Phrasebook
