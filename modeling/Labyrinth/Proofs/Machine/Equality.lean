import Labyrinth.Machine.Equality
import Labyrinth.Proofs.Outcome
import Mathlib.Data.List.Forall2

/-!
# Equality is an equivalence

Two values are compared level by level, and no further than to the same collection on both sides:
a value that contains itself may be equal to another one. A comparison that goes on for too many
levels ends with a fault.

What makes two values equal is said once for a single level (`Heap.EqualBelow`). A collection that
is not looked into never spoils a chain of equal values: where one link of the chain is cut short,
both of its ends are the same collection.

## Main results

* `Heap.equalsWithin_succ_iff`: two values are found equal exactly if they are of one kind and
  their parts are found equal one level below.
* `Heap.equals_equivalence`: equality is reflexive, symmetric and transitive on every heap, and the
  only fault of a comparison is that of a value nested too deeply.
-/

namespace Labyrinth

/-! ### Comparisons item by item -/

/-- Whether two lists agree item by item, by a comparison that may fail, as far as the shorter one
goes. -/
def allAgree {α : Type} (eq : α → α → Except Fault Bool) : List α → List α → Except Fault Bool
  | x :: xs, y :: ys => do
    if ← eq x y then allAgree eq xs ys else return false
  | _, _ => return true

/-- Whether two entries of maps are equal, the key before the value. -/
def entryEqual (eq : Value → Value → Except Fault Bool) (e f : Key × Value) :
    Except Fault Bool := do
  if e.1 != f.1 then return false
  eq e.2 f.2

section Agreement

variable {α : Type} {eq : α → α → Except Fault Bool} {xs ys : List α}

theorem allAgree_eq_true_iff (hlength : xs.length = ys.length) :
    allAgree eq xs ys = .ok true ↔ List.Forall₂ (fun x y => eq x y = .ok true) xs ys := by
  fun_induction allAgree eq xs ys with
  | case1 x xs y ys ih =>
    rw [List.forall₂_cons, ← ih (Nat.succ_inj.1 hlength), bind_eq_ok_iff]
    constructor
    · rintro ⟨b, hxy, h⟩
      cases b with
      | false => cases h
      | true => exact ⟨hxy, h⟩
    · exact fun ⟨hxy, h⟩ => ⟨true, hxy, h⟩
  | case2 xs ys hne =>
    cases xs with
    | nil =>
      rw [List.eq_nil_of_length_eq_zero hlength.symm]
      exact iff_of_true rfl .nil
    | cons x xs =>
      cases ys with
      | nil => cases hlength
      | cons y ys => exact (hne x xs y ys rfl rfl).elim

/-- Comparing the other way round changes nothing. -/
theorem allAgree_comm (hcomm : ∀ x y, eq x y = eq y x) :
    allAgree eq xs ys = allAgree eq ys xs := by
  induction xs generalizing ys with
  | nil => cases ys <;> rfl
  | cons x xs ih =>
    cases ys with
    | nil => rfl
    | cons y ys => simp only [allAgree, hcomm x y, ih]

theorem allAgree_error {fault : Fault} (h : allAgree eq xs ys = .error fault) :
    ∃ x y, eq x y = .error fault := by
  fun_induction allAgree eq xs ys with
  | case1 x xs y ys ih =>
    rcases bind_eq_error_iff.1 h with h | ⟨b, -, h⟩
    · exact ⟨x, y, h⟩
    · cases b with
      | false => cases h
      | true => exact ih h
  | case2 => cases h

/-- Whether two collections are the same one, or have equally many items that agree. -/
def sameOrAgree (same : Prop) [Decidable same] (eq : α → α → Except Fault Bool) (xs ys : List α) :
    Except Fault Bool :=
  if same then return true
  else if xs.length ≠ ys.length then return false
  else allAgree eq xs ys

variable {same same' : Prop} [Decidable same] [Decidable same']

theorem sameOrAgree_eq_true_iff :
    sameOrAgree same eq xs ys = .ok true ↔
      same ∨ List.Forall₂ (fun x y => eq x y = .ok true) xs ys := by
  unfold sameOrAgree
  split
  · next hsame => exact iff_of_true rfl (.inl hsame)
  · next hsame =>
    rw [or_iff_right hsame]
    split
    · next hlength => exact iff_of_false nofun fun h => hlength h.length_eq
    · next hlength => exact allAgree_eq_true_iff (not_not.1 hlength)

theorem sameOrAgree_comm (hsame : same ↔ same') (hcomm : ∀ x y, eq x y = eq y x) :
    sameOrAgree same eq xs ys = sameOrAgree same' eq ys xs := by
  simp only [sameOrAgree, hsame, allAgree_comm hcomm, ne_comm]

theorem sameOrAgree_error {fault : Fault} (h : sameOrAgree same eq xs ys = .error fault) :
    ∃ x y, eq x y = .error fault := by
  unfold sameOrAgree at h
  split at h
  · cases h
  · split at h
    · cases h
    · exact allAgree_error h

end Agreement

theorem forall₂_trans {α : Type} {R : α → α → Prop} (hR : ∀ x y z, R x y → R y z → R x z)
    {xs ys zs : List α} (hxy : List.Forall₂ R xs ys) (hyz : List.Forall₂ R ys zs) :
    List.Forall₂ R xs zs := by
  induction hxy generalizing zs with
  | nil => exact hyz
  | cons hxy _ ih =>
    cases hyz with
    | cons hyz htail => exact .cons (hR _ _ _ hxy hyz) (ih htail)

/-- A chain of collections that are the same or whose items are related. Where one link is cut
short, both of its ends are the same. -/
theorem sameOr_trans {α : Type} (items : Nat → List α) {R : α → α → Prop}
    (hR : ∀ x y z, R x y → R y z → R x z) {a b c : Nat}
    (hab : a = b ∨ List.Forall₂ R (items a) (items b))
    (hbc : b = c ∨ List.Forall₂ R (items b) (items c)) :
    a = c ∨ List.Forall₂ R (items a) (items c) := by
  rcases hab with rfl | hab
  · exact hbc
  · rcases hbc with rfl | hbc
    · exact .inr hab
    · exact .inr (forall₂_trans hR hab hbc)

theorem allEqual_eq (eq : Value → Value → Except Fault Bool) (xs ys : List Value) :
    allEqual eq xs ys = allAgree eq xs ys := by
  induction xs generalizing ys with
  | nil => cases ys <;> rfl
  | cons x xs ih =>
    cases ys with
    | nil => rfl
    | cons y ys => simp only [allEqual, allAgree, ih]

namespace Heap

theorem equalEntries_eq (eq : Value → Value → Except Fault Bool) (xs ys : List (Key × Value)) :
    equalsWithin.equalEntries eq xs ys = allAgree (entryEqual eq) xs ys := by
  induction xs generalizing ys with
  | nil => cases ys <;> rfl
  | cons x xs ih =>
    cases ys with
    | nil => rfl
    | cons y ys =>
      simp only [equalsWithin.equalEntries, allAgree, entryEqual, ih]
      split <;> rfl

theorem entryEqual_eq_true_iff {eq : Value → Value → Except Fault Bool} {e f : Key × Value} :
    entryEqual eq e f = .ok true ↔ e.1 = f.1 ∧ eq e.2 f.2 = .ok true := by
  by_cases hkey : e.1 = f.1
  · simp [entryEqual, hkey]
  · simp [entryEqual, hkey, pure, Except.pure]

theorem entryEqual_comm {eq : Value → Value → Except Fault Bool}
    (hcomm : ∀ x y, eq x y = eq y x) (e f : Key × Value) :
    entryEqual eq e f = entryEqual eq f e := by
  by_cases hkey : e.1 = f.1
  · simp [entryEqual, hkey, hcomm e.2 f.2]
  · simp [entryEqual, hkey, Ne.symm hkey]

theorem entryEqual_error {eq : Value → Value → Except Fault Bool} {e f : Key × Value}
    {fault : Fault} (h : entryEqual eq e f = .error fault) : eq e.2 f.2 = .error fault := by
  by_cases hkey : e.1 = f.1
  · simpa [entryEqual, hkey] using h
  · simp [entryEqual, hkey, pure, Except.pure] at h

/-! ### One level -/

variable {h : Heap} {levels : Nat} {x y z : Value} {fault : Fault}

/-- Two values are equal if their parts are, where `R` tells which parts are equal. A collection is
not looked into if it is the same on both sides. -/
def EqualBelow (h : Heap) (R : Value → Value → Prop) : Value → Value → Prop
  | .null, .null => True
  | .bool a, .bool b => a = b
  | .int a, .int b => a = b
  | .str a, .str b => a = b
  | .list a, .list b => a = b ∨ List.Forall₂ R (h.list a).toList (h.list b).toList
  | .set a, .set b => a = b ∨ (h.set a).toList = (h.set b).toList
  | .map a, .map b =>
    a = b ∨ List.Forall₂ (fun e f => e.1 = f.1 ∧ R e.2 f.2) (h.map a).toList (h.map b).toList
  | _, _ => False

theorem equalsWithin_list (h : Heap) (levels a b : Nat) :
    h.equalsWithin (levels + 1) (.list a) (.list b) =
      sameOrAgree (a = b) (h.equalsWithin levels) (h.list a).toList (h.list b).toList := by
  simp only [equalsWithin, sameOrAgree, allEqual_eq, Array.length_toList]

theorem equalsWithin_map (h : Heap) (levels a b : Nat) :
    h.equalsWithin (levels + 1) (.map a) (.map b) =
      sameOrAgree (a = b) (entryEqual (h.equalsWithin levels)) (h.map a).toList
        (h.map b).toList := by
  simp only [equalsWithin, sameOrAgree, equalEntries_eq, Std.TreeMap.length_toList]

/-- Two values are found equal exactly if they are of one kind and their parts are found equal one
level below. -/
theorem equalsWithin_succ_iff :
    h.equalsWithin (levels + 1) x y = .ok true ↔
      h.EqualBelow (fun x y => h.equalsWithin levels x y = .ok true) x y := by
  cases x with
  | list a =>
    cases y with
    | list b =>
      rw [equalsWithin_list]
      exact sameOrAgree_eq_true_iff
    | _ => exact iff_of_false nofun id
  | map a =>
    cases y with
    | map b =>
      rw [equalsWithin_map, sameOrAgree_eq_true_iff]
      simp only [entryEqual_eq_true_iff, EqualBelow]
    | _ => exact iff_of_false nofun id
  | _ => cases y <;> simp [equalsWithin, EqualBelow, pure, Except.pure]

theorem EqualBelow.trans {R : Value → Value → Prop} (hR : ∀ x y z, R x y → R y z → R x z)
    (hxy : h.EqualBelow R x y) (hyz : h.EqualBelow R y z) : h.EqualBelow R x z := by
  cases x <;> cases y <;> try exact hxy.elim
  all_goals cases z <;> try exact hyz.elim
  case list.list.list => exact sameOr_trans (fun a => (h.list a).toList) hR hxy hyz
  case map.map.map =>
    refine sameOr_trans (fun a => (h.map a).toList) ?_ hxy hyz
    exact fun e f g hef hfg => ⟨hef.1.trans hfg.1, hR _ _ _ hef.2 hfg.2⟩
  case set.set.set =>
    rcases hxy with rfl | hab
    · exact hyz
    · rcases hyz with rfl | hbc
      · exact .inr hab
      · exact .inr (hab.trans hbc)
  case null.null.null => trivial
  all_goals exact Eq.trans hxy hyz

/-- Equality found within a number of levels is transitive. -/
theorem equalsWithin_trans (hxy : h.equalsWithin levels x y = .ok true)
    (hyz : h.equalsWithin levels y z = .ok true) : h.equalsWithin levels x z = .ok true := by
  induction levels generalizing x y z with
  | zero => cases hxy
  | succ levels ih =>
    rw [equalsWithin_succ_iff] at *
    exact hxy.trans (fun _ _ _ => ih) hyz

theorem equalsWithin_comm (h : Heap) (levels : Nat) (x y : Value) :
    h.equalsWithin levels x y = h.equalsWithin levels y x := by
  induction levels generalizing x y with
  | zero => rfl
  | succ levels ih =>
    cases x with
    | list a =>
      cases y with
      | list b =>
        rw [equalsWithin_list, equalsWithin_list]
        exact sameOrAgree_comm eq_comm ih
      | _ => rfl
    | map a =>
      cases y with
      | map b =>
        rw [equalsWithin_map, equalsWithin_map]
        exact sameOrAgree_comm eq_comm (entryEqual_comm ih)
      | _ => rfl
    | _ => cases y <;> simp [equalsWithin, Bool.beq_comm]

theorem equalsWithin_error (hfault : h.equalsWithin levels x y = .error fault) :
    fault = .nestingDepth := by
  induction levels generalizing x y with
  | zero => exact (Except.error.inj hfault).symm
  | succ levels ih =>
    cases x with
    | list a =>
      cases y with
      | list b =>
        rw [equalsWithin_list] at hfault
        obtain ⟨x, y, hxy⟩ := sameOrAgree_error hfault
        exact ih hxy
      | _ => cases hfault
    | map a =>
      cases y with
      | map b =>
        rw [equalsWithin_map] at hfault
        obtain ⟨e, f, hef⟩ := sameOrAgree_error hfault
        exact ih (entryEqual_error hef)
      | _ => cases hfault
    | _ => cases y <;> cases hfault

/-- Equality is reflexive, symmetric and transitive on every heap, and the only fault that a
comparison raises is that of a value nested too deeply. -/
theorem equals_equivalence (h : Heap) (x y z : Value) :
    h.equals x x = .ok true ∧
      (h.equals x y = h.equals y x ∧
        (h.equals x y = .ok true ∨ h.equals x y = .ok false ∨
          h.equals x y = .error .nestingDepth)) ∧
      (h.equals x y = .ok true → h.equals y z = .ok true → h.equals x z = .ok true) := by
  refine ⟨h.equals_same x, ⟨h.equalsWithin_comm _ x y, ?_⟩, equalsWithin_trans⟩
  cases hxy : h.equals x y with
  | ok b => cases b <;> simp
  | error fault => simp [equalsWithin_error hxy]

/-- Three lists that hold the same list, which holds itself. -/
theorem equals_equivalence_cyclic :
    Heap.equals ⟨#[#[.list 0], #[.list 0], #[.list 0], #[.list 0]], #[], #[]⟩ (.list 1) (.list 3) =
      .ok true :=
  (equals_equivalence _ (.list 1) (.list 2) (.list 3)).2.2 (by decide) (by decide)

end Heap

end Labyrinth
