import Mathlib.Data.List.Forall2
/-!
What a computation that succeeds has gone through, and where one that fails has stopped. Each law
peels one layer off a result, so a proof follows the steps of an operation without opening the
operations it calls.
-/
namespace SigV4.Success

variable {ε δ α β : Type}

theorem bind_ok {first : Except ε α} {next : α → Except ε β} {result : β} :
    (first >>= next) = .ok result ↔ ∃ value, first = .ok value ∧ next value = .ok result := by
  cases first with
  | error fault => simp [bind, Except.bind]
  | ok value => simp [bind, Except.bind]

theorem map_ok {first : Except ε α} {change : α → β} {result : β} :
    first.map change = .ok result ↔ ∃ value, first = .ok value ∧ change value = result := by
  cases first with
  | error fault => simp [Except.map]
  | ok value => simp [Except.map]

theorem mapError_ok {first : Except ε α} {change : ε → δ} {result : α} :
    first.mapError change = .ok result ↔ first = .ok result := by
  cases first with
  | error fault => simp [Except.mapError]
  | ok value => simp [Except.mapError]

theorem map_error {first : Except ε α} {change : α → β} {fault : ε} :
    first.map change = .error fault ↔ first = .error fault := by
  cases first with
  | error refused => simp [Except.map]
  | ok value => simp [Except.map]

theorem mapError_error {first : Except ε α} {change : ε → δ} {fault : δ} :
    first.mapError change = .error fault ↔ ∃ refused, first = .error refused ∧ change refused = fault := by
  cases first with
  | error refused => simp [Except.mapError]
  | ok value => simp [Except.mapError]

theorem elim_ok {found : Option α} {fault : ε} {result : α} :
    found.elim (.error fault) Except.ok = .ok result ↔ found = some result := by
  cases found with
  | none => simp
  | some value => simp

theorem guard_ok {refused : Prop} [Decidable refused] {fault : ε} {next : Except ε α} {result : α} :
    (do if refused then throw fault
        next) = .ok result ↔ ¬ refused ∧ next = .ok result := by
  by_cases bad : refused
  · simp [bad, bind, Except.bind, throw, throwThe, MonadExceptOf.throw]
  · simp [bad]

theorem mapM_ok {step : α → Except ε β} {items : List α} {results : List β} :
    items.mapM step = .ok results ↔
      List.Forall₂ (fun item result => step item = .ok result) items results := by
  induction items generalizing results with
  | nil => cases results <;> simp [List.mapM_nil, pure, Except.pure]
  | cons item rest ih =>
      rw [List.mapM_cons, bind_ok]
      constructor
      · rintro ⟨first, stepped, more⟩
        obtain ⟨tail, mapped, gathered⟩ := bind_ok.mp more
        rw [← Except.ok.inj gathered]
        exact .cons stepped (ih.mp mapped)
      · intro related
        cases related with
        | cons stepped tail => exact ⟨_, stepped, bind_ok.mpr ⟨_, ih.mpr tail, rfl⟩⟩

theorem mem_of_mapM {step : α → Except ε β} {items : List α} {results : List β} {result : β}
    (mapped : items.mapM step = .ok results) (member : result ∈ results) :
    ∃ item ∈ items, step item = .ok result := by
  have related := mapM_ok.mp mapped
  clear mapped
  induction related with
  | nil => contradiction
  | cons stepped _ ih =>
      rcases List.mem_cons.mp member with rfl | later
      · exact ⟨_, List.mem_cons_self, stepped⟩
      · obtain ⟨item, inside, found⟩ := ih later
        exact ⟨item, List.mem_cons_of_mem _ inside, found⟩

theorem exists_of_mapM {step : α → Except ε β} {items : List α} {results : List β} {item : α}
    (mapped : items.mapM step = .ok results) (member : item ∈ items) :
    ∃ result ∈ results, step item = .ok result := by
  have related := mapM_ok.mp mapped
  clear mapped
  induction related with
  | nil => contradiction
  | cons stepped _ ih =>
      rcases List.mem_cons.mp member with rfl | later
      · exact ⟨_, List.mem_cons_self, stepped⟩
      · obtain ⟨result, inside, found⟩ := ih later
        exact ⟨result, List.mem_cons_of_mem _ inside, found⟩

theorem mapM_of_forall {step : α → Except ε β} {items : List α}
    (each : ∀ item ∈ items, ∃ result, step item = .ok result) :
    ∃ results, items.mapM step = .ok results := by
  induction items with
  | nil => exact ⟨[], rfl⟩
  | cons item rest ih =>
      obtain ⟨first, stepped⟩ := each item List.mem_cons_self
      obtain ⟨tail, mapped⟩ := ih fun later member => each later (List.mem_cons_of_mem item member)
      exact ⟨first :: tail, by rw [List.mapM_cons, stepped, mapped]; rfl⟩

theorem mapM_congr {step other : α → Except ε β} {items : List α}
    (same : ∀ item ∈ items, step item = other item) : items.mapM step = items.mapM other := by
  induction items with
  | nil => rfl
  | cons item rest ih =>
      have tail := ih fun later member => same later (List.mem_cons_of_mem item member)
      rw [List.mapM_cons, List.mapM_cons, same item List.mem_cons_self, tail]

theorem mapM_zip (step : α → Except ε β) (items : List α) :
    (items.mapM fun item => (step item).map (item, ·)) = (items.mapM step).map items.zip := by
  induction items with
  | nil => rfl
  | cons item rest ih =>
      rw [List.mapM_cons, List.mapM_cons, ih]
      cases step item with
      | error fault => rfl
      | ok first =>
          cases rest.mapM step with
          | error fault => rfl
          | ok results => rfl

end SigV4.Success
