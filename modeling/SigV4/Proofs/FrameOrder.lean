import Mathlib.Data.List.Nodup
import SigV4.Event.Order
/-!
The wire order of headers. Headers are compared by the octets of their names, but the signature of
a frame is greater than all others, wherever its name would stand among theirs. The comparison is a
total preorder that cannot tell headers of one name apart, and those keep the order in which they
were given; so there is one wire order of a list of headers, and sorting finds it.
-/
namespace SigV4

/-- Comparing octet strings says less or equal just where their order does. -/
theorem Bytes.isLE_compare (left right : Bytes) :
    (compare left right).isLE = true ↔ left ≤ right := by
  induction left generalizing right with
  | nil => cases right <;> simp
  | cons first rest ih =>
      cases right with
      | nil => simp
      | cons second others =>
          have tails : (List.compareLex compare rest others).isLE = true ↔ rest ≤ others :=
            ih others
          rw [List.compare_eq_compareLex, List.compareLex_cons_cons, List.cons_le_cons_iff,
            Ordering.isLE_then_iff_or, tails, Std.compare_eq_lt, Std.compare_eq_iff_eq]

namespace Event

namespace Header

theorem le_iff {left right : Header} :
    left.le right = true ↔ right.name = signatureName ∨
      (left.name ≠ signatureName ∧ Bytes.ofText left.name ≤ Bytes.ofText right.name) := by
  unfold le
  by_cases last : left.name = signatureName
  · simp [last]
  · simp [last]

theorem le_total (left right : Header) : (left.le right || right.le left) = true := by
  rw [Bool.or_eq_true, le_iff, le_iff]
  by_cases last : right.name = signatureName
  · exact Or.inl (Or.inl last)
  by_cases first : left.name = signatureName
  · exact Or.inr (Or.inl first)
  rcases List.le_total (Bytes.ofText left.name) (Bytes.ofText right.name) with lower | upper
  · exact Or.inl (Or.inr ⟨first, lower⟩)
  · exact Or.inr (Or.inr ⟨last, upper⟩)

theorem le_trans (first second third : Header) (lower : first.le second = true)
    (upper : second.le third = true) : first.le third = true := by
  rw [le_iff] at lower upper ⊢
  rcases upper with last | ⟨other, upper⟩
  · exact Or.inl last
  · obtain ⟨plain, lower⟩ := lower.resolve_left other
    exact Or.inr ⟨plain, List.le_trans lower upper⟩

theorem le_of_name_eq {left right : Header} (same : left.name = right.name) :
    left.le right = true := by
  rw [le_iff, ← same]
  by_cases last : left.name = signatureName
  · exact Or.inl last
  · exact Or.inr ⟨last, List.le_refl _⟩

/-- Only headers of one name are not told apart. -/
theorem name_eq_of_le {left right : Header} (lower : left.le right = true)
    (upper : right.le left = true) : left.name = right.name := by
  rw [le_iff] at lower upper
  rcases lower with last | ⟨plain, lower⟩
  · rcases upper with first | ⟨other, _⟩
    · exact first.trans last.symm
    · exact absurd last other
  · obtain ⟨_, upper⟩ := upper.resolve_left plain
    exact Bytes.ofText_injective (List.le_antisymm lower upper)

/-- How two headers compare: a signature is greater than all else, and other names compare by their
octets. -/
def order (left right : Header) : Ordering :=
  match decide (left.name = signatureName), decide (right.name = signatureName) with
  | true, false => .gt
  | false, true => .lt
  | _, _ => compare (Bytes.ofText left.name) (Bytes.ofText right.name)

theorem isLE_order (left right : Header) : (order left right).isLE = left.le right := by
  rw [Bool.eq_iff_iff, le_iff]
  unfold order
  by_cases first : left.name = signatureName
  · by_cases last : right.name = signatureName
    · simp [first, last]
    · simp [first, last]
  · by_cases last : right.name = signatureName
    · simp [first, last]
    · simp [first, last, Bytes.isLE_compare]

theorem order_swap (left right : Header) : order left right = (order right left).swap := by
  unfold order
  cases decide (left.name = signatureName) <;> cases decide (right.name = signatureName)
  case false.true => rfl
  case true.false => rfl
  all_goals exact Std.OrientedOrd.eq_swap

instance : Std.TransCmp order where
  eq_swap := order_swap _ _
  isLE_trans := by
    intro first second third
    rw [isLE_order, isLE_order, isLE_order]
    exact le_trans first second third

theorem order_eq_iff {left right : Header} : order left right = .eq ↔ left.name = right.name := by
  constructor
  · intro tied
    have back := order_swap right left
    have lower := isLE_order left right
    have upper := isLE_order right left
    rw [back, tied] at upper
    rw [tied] at lower
    exact name_eq_of_le lower.symm upper.symm
  · intro same
    apply Std.OrientedCmp.isLE_antisymm
    · rw [isLE_order, le_of_name_eq same]
    · rw [isLE_order, le_of_name_eq same.symm]

end Header

structure WireOrder (given written : List Header) : Prop where
  members : written.Perm given
  last : written.Pairwise fun earlier later =>
    earlier.name = signatureName → later.name = signatureName
  ascending : (written.filter (·.name ≠ signatureName)).Pairwise fun earlier later =>
    Bytes.ofText earlier.name ≤ Bytes.ofText later.name
  stable : ∀ name, written.filter (·.name = name) = given.filter (·.name = name)

theorem pairwise_le_iff {headers : List Header} :
    headers.Pairwise (fun earlier later => earlier.le later = true) ↔
      (headers.Pairwise fun earlier later =>
        earlier.name = signatureName → later.name = signatureName) ∧
      (headers.filter (·.name ≠ signatureName)).Pairwise fun earlier later =>
        Bytes.ofText earlier.name ≤ Bytes.ofText later.name := by
  rw [List.pairwise_filter, ← List.pairwise_and_iff]
  apply List.Pairwise.iff
  intro earlier later
  rw [Header.le_iff]
  by_cases first : earlier.name = signatureName
  · simp [first]
  · by_cases last : later.name = signatureName
    · simp [last]
    · simp [first, last]

theorem sorted_sortHeaders (headers : List Header) :
    (sortHeaders headers).Pairwise fun earlier later => earlier.le later = true :=
  List.pairwise_mergeSort Header.le_trans Header.le_total headers

theorem sortHeaders_perm (headers : List Header) : (sortHeaders headers).Perm headers :=
  List.mergeSort_perm headers Header.le

/-- Headers of one name are in order already, so sorting keeps them as they are among each other. -/
theorem filter_sortHeaders (headers : List Header) (name : String) :
    (sortHeaders headers).filter (·.name = name) = headers.filter (·.name = name) := by
  have sorted : (headers.filter (·.name = name)).Pairwise
      fun earlier later => earlier.le later = true := by
    rw [List.pairwise_filter]
    refine List.pairwise_of_forall fun earlier later first second => Header.le_of_name_eq ?_
    rw [of_decide_eq_true first, of_decide_eq_true second]
  have inside := List.sublist_mergeSort Header.le_trans Header.le_total sorted List.filter_sublist
  have part := inside.filter (·.name = name)
  rw [List.filter_filter] at part
  simp only [Bool.and_self] at part
  exact (part.eq_of_length ((sortHeaders_perm headers).filter _).length_eq.symm).symm

theorem wireOrder_sortHeaders (headers : List Header) :
    WireOrder headers (sortHeaders headers) := by
  obtain ⟨last, ascending⟩ := pairwise_le_iff.mp (sorted_sortHeaders headers)
  exact ⟨sortHeaders_perm headers, last, ascending, filter_sortHeaders headers⟩

theorem mem_of_filter {left right : List Header}
    (same : ∀ name, left.filter (·.name = name) = right.filter (·.name = name)) {header : Header}
    (member : header ∈ left) : header ∈ right := by
  have found : header ∈ left.filter (·.name = header.name) :=
    List.mem_filter.mpr ⟨member, decide_eq_true rfl⟩
  rw [same] at found
  exact List.mem_of_mem_filter found

-- Induction on one of the lists: both start with a least header, so with one of the same name, and
-- of the headers of that name both start with the first.
theorem eq_of_sorted_of_filter {left right : List Header}
    (leftSorted : left.Pairwise fun earlier later => earlier.le later = true)
    (rightSorted : right.Pairwise fun earlier later => earlier.le later = true)
    (same : ∀ name, left.filter (·.name = name) = right.filter (·.name = name)) :
    left = right := by
  have back := fun name => (same name).symm
  induction left generalizing right with
  | nil =>
      refine (List.eq_nil_iff_forall_not_mem.mpr fun header member => ?_).symm
      exact List.not_mem_nil (mem_of_filter back member)
  | cons first rest ih =>
      cases right with
      | nil => exact absurd (mem_of_filter same List.mem_cons_self) List.not_mem_nil
      | cons second others =>
          obtain ⟨firstLeast, restSorted⟩ := List.pairwise_cons.mp leftSorted
          obtain ⟨secondLeast, othersSorted⟩ := List.pairwise_cons.mp rightSorted
          have names : first.name = second.name := by
            rcases List.mem_cons.mp (mem_of_filter same List.mem_cons_self) with equal | later
            · rw [equal]
            rcases List.mem_cons.mp (mem_of_filter back List.mem_cons_self) with equal | after
            · rw [equal]
            · exact Header.name_eq_of_le (firstLeast second after) (secondLeast first later)
          have heads := same second.name
          simp only [List.filter_cons, names, decide_true, if_true] at heads
          obtain ⟨rfl, _⟩ := List.cons.inj heads
          have tails : ∀ name, rest.filter (·.name = name) = others.filter (·.name = name) := by
            intro name
            have both := same name
            rw [List.filter_cons, List.filter_cons] at both
            split at both
            · exact (List.cons.inj both).2
            · exact both
          rw [ih restSorted othersSorted tails fun name => (tails name).symm]

/-- The wire order is unique. -/
theorem wireOrder_iff {given written : List Header} :
    WireOrder given written ↔ written = sortHeaders given := by
  constructor
  · intro order
    apply eq_of_sorted_of_filter
    · exact pairwise_le_iff.mpr ⟨order.last, order.ascending⟩
    · exact sorted_sortHeaders given
    · exact fun name => (order.stable name).trans (filter_sortHeaders given name).symm
  · rintro rfl
    exact wireOrder_sortHeaders given

theorem sortHeaders_sortHeaders (headers : List Header) :
    sortHeaders (sortHeaders headers) = sortHeaders headers :=
  List.mergeSort_of_pairwise (sorted_sortHeaders headers)

/-- Headers that all have names of their own are written in one order, however they come. -/
theorem sortHeaders_of_perm {left right : List Header} (distinct : (left.map (·.name)).Nodup)
    (perm : left.Perm right) : sortHeaders left = sortHeaders right := by
  have members : (sortHeaders left).Perm (sortHeaders right) :=
    (sortHeaders_perm left).trans (perm.trans (sortHeaders_perm right).symm)
  refine List.Perm.eq_of_pairwise ?_ (sorted_sortHeaders left) (sorted_sortHeaders right) members
  intro first second inLeft inRight lower upper
  have known : first ∈ left := (sortHeaders_perm left).mem_iff.mp inLeft
  have found : second ∈ left := perm.mem_iff.mpr ((sortHeaders_perm right).mem_iff.mp inRight)
  exact List.inj_on_of_nodup_map distinct known found (Header.name_eq_of_le lower upper)

/-- Headers have one wire order, by a comparison that ties headers of one name and no others. What is
in that order stays as it is, and headers of distinct names come into it from any other. -/
theorem headers_written_in_order (given : List Header) :
    (∀ written, WireOrder given written ↔ written = sortHeaders given) ∧
    (Std.TransCmp Header.order ∧
      (∀ left right, left.le right = (Header.order left right).isLE) ∧
      ∀ left right, Header.order left right = .eq ↔ left.name = right.name) ∧
    sortHeaders (sortHeaders given) = sortHeaders given ∧
    ((given.map (·.name)).Nodup →
      ∀ other : List Header, given.Perm other → sortHeaders other = sortHeaders given) :=
  ⟨fun _ => wireOrder_iff,
    ⟨inferInstance, fun left right => (Header.isLE_order left right).symm,
      fun _ _ => Header.order_eq_iff⟩,
    sortHeaders_sortHeaders given, fun distinct _ perm => (sortHeaders_of_perm distinct perm).symm⟩

-- Names below and above those that begin with a colon, of which one is that of the signature.
def scattered : List Header :=
  [⟨"text", .bool true⟩, ⟨signatureName, .bytes []⟩, ⟨dateName, .int64 0⟩, ⟨"1st", .bool false⟩]

def scatteredInOrder : List Header :=
  [⟨"1st", .bool false⟩, ⟨dateName, .int64 0⟩, ⟨"text", .bool true⟩, ⟨signatureName, .bytes []⟩]

theorem scattered_written :
    (scattered.map (·.name)).Nodup ∧ sortHeaders scattered = scatteredInOrder ∧
      WireOrder scattered scatteredInOrder ∧
      sortHeaders scattered.reverse = scatteredInOrder := by
  have distinct : (scattered.map (·.name)).Nodup := by decide
  obtain ⟨unique, _, _, free⟩ := headers_written_in_order scattered
  have sorted : sortHeaders scattered = scatteredInOrder := by
    rw [← free distinct scatteredInOrder (by decide)]
    exact List.mergeSort_of_pairwise (by decide +kernel)
  exact ⟨distinct, sorted, (unique _).mpr sorted.symm,
    (free distinct _ (List.reverse_perm scattered).symm).trans sorted⟩

end Event

end SigV4
