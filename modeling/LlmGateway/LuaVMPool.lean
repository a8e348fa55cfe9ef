import Mathlib.Data.List.Nodup
import Mathlib.Data.List.Perm.Basic
import Mathlib.Data.List.Range
import LlmGateway.Lib.Outcome

/-!
# The pool of Lua states

A `LuaVMPool` owns its states and keeps those that are not lent in a queue.  `borrow` hands out a `VMRent`,
a handle that gives its state back when it is destroyed.

A state is lost if another handle is assigned to the handle that holds it.  If the states are replaced while
some are lent, these are given back to a queue that has all the new ones.  So the states are conserved in a
run exactly if neither happens: `conserved_iff`.
-/

namespace LlmGateway

/-- A state, by its number: the pool creates new ones, and never one twice. -/
abbrev VmId := ℕ

/-- A handle, and whether it has a function to give its state back with. -/
structure VMRent where
  vm : Option VmId
  returns : Bool
  deriving DecidableEq

/-- `allVms` are the states that the pool owns. -/
structure LuaVMPool where
  poolSize : ℕ
  allVms : List VmId
  available : List VmId
  nextVm : VmId
  deriving DecidableEq

namespace LuaVMPool

/-- The constructor. -/
def create (poolSize : ℕ) : LuaVMPool where
  poolSize
  allVms := List.range poolSize
  available := List.range poolSize
  nextVm := poolSize

/-- Nothing is handed out if all states are in use: `borrow` throws. -/
def borrow (pool : LuaVMPool) : Option (VMRent × LuaVMPool) :=
  match pool.available with
  | [] => none
  | vm :: available => some (⟨some vm, true⟩, { pool with available })

/-- `return_vm`: a state is available again. -/
def returnVm (vm : VmId) (pool : LuaVMPool) : LuaVMPool :=
  { pool with available := pool.available ++ [vm] }

/-- The states are destroyed, and as many new ones take their place. -/
def updateApi (pool : LuaVMPool) : LuaVMPool where
  poolSize := pool.poolSize
  allVms := List.range' pool.nextVm pool.poolSize
  available := List.range' pool.nextVm pool.poolSize
  nextVm := pool.nextVm + pool.poolSize

end LuaVMPool

namespace VMRent

/-- The destructor. -/
def destroy (rent : VMRent) (pool : LuaVMPool) : LuaVMPool :=
  match rent.vm with
  | none => pool
  | some vm => if rent.returns then pool.returnVm vm else pool

/-- What moving from a handle leaves. -/
def moved : VMRent := ⟨none, false⟩

end VMRent

/-- The pool, and the handles in the order in which they were made; nothing for those that are destroyed. -/
structure VMRents where
  pool : LuaVMPool
  handles : List (Option VMRent) := []

namespace VMRents

/-- What is done with the pool and the handles. -/
inductive Op where
  | borrow
  | destroy (i : ℕ)
  /-- Make a new handle of the handle `i`. -/
  | moveConstruct (i : ℕ)
  /-- Assign the handle `j` to the handle `i`. -/
  | moveAssign (i j : ℕ)
  | updateApi

/-- The handle of a number, if it is alive. -/
def live (i : ℕ) (s : VMRents) : Option VMRent := (s.handles[i]?).join

/-- What an operation does. -/
def step (op : Op) (s : VMRents) : Outcome VMRents :=
  match op with
  | .borrow =>
      match s.pool.borrow with
      | none => .throw s
      | some (rent, pool) => .ok { pool, handles := s.handles ++ [some rent] }
  | .destroy i =>
      match s.live i with
      | none => .ok s
      | some rent => .ok { pool := rent.destroy s.pool, handles := s.handles.set i none }
  | .moveConstruct i =>
      match s.live i with
      | none => .ok s
      | some rent => .ok { s with handles := s.handles.set i (some .moved) ++ [some rent] }
  | .moveAssign i j =>
      match s.live i, s.live j with
      | some _, some rent =>
          if i = j then .ok s
          else .ok { s with handles := (s.handles.set i (some rent)).set j (some .moved) }
      | _, _ => .ok s
  | .updateApi => .ok { s with pool := s.pool.updateApi }

/-- A pool of `p` states, none of which is lent. -/
def start (p : ℕ) : VMRents where
  pool := .create p

/-- The pool and the handles after some operations. -/
def run (s : VMRents) (ops : List Op) : VMRents := Outcome.run step s ops

/-- The states that the handles hold. -/
def lent (handles : List (Option VMRent)) : List VmId := handles.filterMap fun h => h.bind VMRent.vm

/-- Every state of the pool is in the queue once or held by one handle, `borrow` hands out states of the
pool, and their number stays the same. -/
structure Conserved (s : VMRents) : Prop where
  owned : ∀ vm ∈ s.pool.allVms,
    (s.pool.available.count vm = 1 ∧ (lent s.handles).count vm = 0) ∨
      (s.pool.available.count vm = 0 ∧ (lent s.handles).count vm = 1)
  handsOut : ∀ rent pool, s.pool.borrow = some (rent, pool) → ∃ vm ∈ s.pool.allVms, rent.vm = some vm
  size : s.pool.available.length + (lent s.handles).length = s.pool.poolSize

/-- No handle that holds a state is assigned to, and no states are replaced while some are lent. -/
def Safe (s : VMRents) : Op → Prop
  | .moveAssign i j => i ≠ j → ∀ rent rent', s.live i = some rent → s.live j = some rent' → rent.vm = none
  | .updateApi => lent s.handles = []
  | _ => True

/-! ## The states that the handles hold -/

theorem live_eq_some {i : ℕ} {s : VMRents} {rent : VMRent} :
    s.live i = some rent ↔ s.handles[i]? = some (some rent) := by
  unfold live
  cases s.handles[i]? with
  | none => simp
  | some h => simp

theorem lent_append (handles : List (Option VMRent)) (h : Option VMRent) :
    lent (handles ++ [h]) = lent handles ++ (h.bind VMRent.vm).toList := by
  unfold lent
  rw [List.filterMap_append]
  cases hvm : h.bind VMRent.vm <;> simp [hvm]

/-- What the other handles hold. -/
theorem exists_lent_set {handles : List (Option VMRent)} {i : ℕ} {h : Option VMRent}
    (hi : handles[i]? = some h) :
    ∃ rest, (lent handles).Perm ((h.bind VMRent.vm).toList ++ rest) ∧
      ∀ h', (lent (handles.set i h')).Perm ((h'.bind VMRent.vm).toList ++ rest) := by
  obtain ⟨hlt, rfl⟩ := List.getElem?_eq_some_iff.1 hi
  have hcons (h : Option VMRent) (rest : List (Option VMRent)) :
      lent (h :: rest) = (h.bind VMRent.vm).toList ++ lent rest := by
    unfold lent
    cases hvm : h.bind VMRent.vm <;> simp [hvm]
  refine ⟨lent (handles.eraseIdx i), ?_, fun h' => ?_⟩
  · rw [← hcons]
    exact (List.getElem_cons_eraseIdx_perm hlt).symm.filterMap _
  · rw [← hcons]
    exact (List.set_perm_cons_eraseIdx hlt h').filterMap _

theorem lent_moveAssign {handles : List (Option VMRent)} {i j : ℕ} (hij : i ≠ j) {rent rent' : VMRent}
    (hi : handles[i]? = some (some rent)) (hj : handles[j]? = some (some rent')) :
    (lent handles).Perm
      (rent.vm.toList ++ lent ((handles.set i (some rent')).set j (some .moved))) := by
  obtain ⟨rest, hrest, hset⟩ := exists_lent_set hi
  have hj' : (handles.set i (some rent'))[j]? = some (some rent') := by
    rw [List.getElem?_set_ne hij, hj]
  obtain ⟨rest', hrest', hset'⟩ := exists_lent_set hj'
  have hsame : rest.Perm rest' :=
    (List.perm_append_left_iff rent'.vm.toList).1 ((hset (some rent')).symm.trans hrest')
  refine hrest.trans (List.Perm.append_left _ (hsame.trans ?_))
  exact (hset' (some .moved)).symm

/-! ## Steps -/

/-- A handle that holds a state can give it back. -/
def Gives : Option VMRent → Prop
  | none => True
  | some rent => rent.vm.isSome → rent.returns = true

/-- The states of the pool are those in the queue and those that handles hold. -/
structure Balanced (s : VMRents) : Prop where
  perm : (s.pool.available ++ lent s.handles).Perm s.pool.allVms
  nodup : s.pool.allVms.Nodup
  size : s.pool.allVms.length = s.pool.poolSize
  gives : ∀ h ∈ s.handles, Gives h

theorem balanced_start (p : ℕ) : Balanced (start p) where
  perm := by rw [show lent (start p).handles = [] from rfl, List.append_nil]; rfl
  nodup := List.nodup_range
  size := List.length_range
  gives := fun _ h => absurd h List.not_mem_nil

theorem Balanced.conserved {s : VMRents} (h : Balanced s) : Conserved s where
  owned vm hvm := by
    have hcount := h.perm.count_eq vm
    rw [List.count_append, List.count_eq_one_of_mem h.nodup hvm] at hcount
    omega
  handsOut rent pool hborrow := by
    unfold LuaVMPool.borrow at hborrow
    split at hborrow
    · cases hborrow
    · next vm available heq =>
      obtain ⟨rfl, -⟩ := Prod.mk.inj (Option.some.inj hborrow)
      refine ⟨vm, h.perm.subset (List.mem_append_left _ ?_), rfl⟩
      rw [heq]
      exact List.mem_cons_self
  size := by
    rw [← List.length_append, h.perm.length_eq, h.size]

theorem gives_set {handles : List (Option VMRent)} (hgives : ∀ h ∈ handles, Gives h) {i : ℕ}
    {h' : Option VMRent} (h : Gives h') : ∀ h ∈ handles.set i h', Gives h := by
  intro h'' hmem
  rcases List.mem_or_eq_of_mem_set hmem with hmem | rfl
  · exact hgives h'' hmem
  · exact h

theorem gives_concat {handles : List (Option VMRent)} (hgives : ∀ h ∈ handles, Gives h)
    {h' : Option VMRent} (h : Gives h') : ∀ h ∈ handles ++ [h'], Gives h := by
  intro h'' hmem
  rcases List.mem_append.1 hmem with hmem | hmem
  · exact hgives h'' hmem
  · rw [List.mem_singleton.1 hmem]
    exact h

theorem gives_moved : Gives (some .moved) := fun h => by cases h

theorem step_destroy {s : VMRents} {i : ℕ} {rent : VMRent} (h : s.live i = some rent) :
    step (.destroy i) s = .ok { pool := rent.destroy s.pool, handles := s.handles.set i none } := by
  simp only [step, h]

theorem step_moveConstruct {s : VMRents} {i : ℕ} {rent : VMRent} (h : s.live i = some rent) :
    step (.moveConstruct i) s =
      .ok { s with handles := s.handles.set i (some .moved) ++ [some rent] } := by
  simp only [step, h]

theorem step_moveAssign {s : VMRents} {i j : ℕ} (hij : i ≠ j) {rent rent' : VMRent}
    (hi : s.live i = some rent) (hj : s.live j = some rent') :
    step (.moveAssign i j) s =
      .ok { s with handles := (s.handles.set i (some rent')).set j (some .moved) } := by
  simp only [step, hi, hj, if_neg hij]

/-- Nothing happens to handles that are not alive, or to one that is assigned to itself. -/
theorem step_moveAssign_skip {s : VMRents} {i j : ℕ}
    (h : s.live i = none ∨ s.live j = none ∨ i = j) : step (.moveAssign i j) s = .ok s := by
  rcases h with h | h | rfl
  · simp only [step, h]
  · cases hi : s.live i <;> simp only [step, hi, h]
  · cases hi : s.live i <;> simp only [step, hi, if_pos]

theorem Balanced.borrow {s : VMRents} (h : Balanced s) : Balanced (step .borrow s).state := by
  unfold step LuaVMPool.borrow
  cases havailable : s.pool.available with
  | nil => exact h
  | cons vm available =>
    refine ⟨?_, h.nodup, h.size, gives_concat h.gives fun _ => rfl⟩
    show (available ++ lent (s.handles ++ [some ⟨some vm, true⟩])).Perm s.pool.allVms
    refine List.Perm.trans ?_ h.perm
    rw [lent_append, havailable, ← List.append_assoc]
    exact List.perm_append_singleton vm _

theorem Balanced.destroy {s : VMRents} (h : Balanced s) (i : ℕ) : Balanced (step (.destroy i) s).state := by
  cases hlive : s.live i with
  | none =>
    rw [show step (.destroy i) s = .ok s by simp only [step, hlive]]
    exact h
  | some rent =>
    rw [step_destroy hlive]
    have hi := live_eq_some.1 hlive
    have hgives : Gives (some rent) := h.gives _ (List.mem_of_getElem? hi)
    have hafter : ∀ x ∈ s.handles.set i none, Gives x := gives_set h.gives trivial
    obtain ⟨rest, hrest, hset⟩ := exists_lent_set hi
    have hlent : (lent (s.handles.set i none)).Perm rest := hset none
    rw [Option.bind_some] at hrest
    unfold VMRent.destroy
    cases hvm : rent.vm with
    | none =>
      rw [hvm] at hrest
      refine ⟨(List.Perm.append_left _ ?_).trans h.perm, h.nodup, h.size, hafter⟩
      exact hlent.trans hrest.symm
    | some vm =>
      rw [hvm] at hrest
      dsimp only
      rw [if_pos (hgives (by rw [hvm]; rfl))]
      refine ⟨?_, h.nodup, h.size, hafter⟩
      refine List.Perm.trans ?_ h.perm
      show (s.pool.available ++ [vm] ++ lent (s.handles.set i none)).Perm _
      rw [List.append_assoc]
      exact List.Perm.append_left _ ((List.Perm.append_left [vm] hlent).trans hrest.symm)

theorem Balanced.moveConstruct {s : VMRents} (h : Balanced s) (i : ℕ) :
    Balanced (step (.moveConstruct i) s).state := by
  cases hlive : s.live i with
  | none =>
    rw [show step (.moveConstruct i) s = .ok s by simp only [step, hlive]]
    exact h
  | some rent =>
    rw [step_moveConstruct hlive]
    have hi := live_eq_some.1 hlive
    obtain ⟨rest, hrest, hset⟩ := exists_lent_set hi
    refine ⟨(List.Perm.append_left _ ?_).trans h.perm, h.nodup, h.size,
      gives_concat (gives_set h.gives gives_moved) (h.gives _ (List.mem_of_getElem? hi))⟩
    show (lent (s.handles.set i (some .moved) ++ [some rent])).Perm _
    rw [lent_append]
    exact (((hset _).append_right _).trans List.perm_append_comm).trans hrest.symm

/-- Assigning to a handle that holds no state. -/
theorem Balanced.moveAssign {s : VMRents} (h : Balanced s) {i j : ℕ} (hsafe : Safe s (.moveAssign i j)) :
    Balanced (step (.moveAssign i j) s).state := by
  cases hi : s.live i with
  | none => exact (step_moveAssign_skip (.inl hi)).symm ▸ h
  | some rent =>
    cases hj : s.live j with
    | none => exact (step_moveAssign_skip (.inr (.inl hj))).symm ▸ h
    | some rent' =>
      by_cases hij : i = j
      · exact (step_moveAssign_skip (.inr (.inr hij))).symm ▸ h
      · have hperm := lent_moveAssign hij (live_eq_some.1 hi) (live_eq_some.1 hj)
        rw [hsafe hij rent rent' hi hj] at hperm
        rw [step_moveAssign hij hi hj]
        refine ⟨(List.Perm.append_left _ hperm.symm).trans h.perm, h.nodup, h.size, ?_⟩
        exact gives_set (gives_set h.gives (h.gives _ (List.mem_of_getElem? (live_eq_some.1 hj)))) gives_moved

theorem Balanced.updateApi {s : VMRents} (h : Balanced s) (hsafe : lent s.handles = []) :
    Balanced (step .updateApi s).state where
  perm := by
    show (List.range' s.pool.nextVm s.pool.poolSize ++ lent s.handles).Perm
      (List.range' s.pool.nextVm s.pool.poolSize)
    rw [hsafe, List.append_nil]
  nodup := List.nodup_range'
  size := List.length_range'
  gives := h.gives

/-- What is not safe loses a state, or has too many. -/
theorem safe_of_conserved {s : VMRents} (h : Balanced s) {op : Op} (hafter : Conserved (step op s).state) :
    Safe s op := by
  have hsize := h.conserved.size
  cases op with
  | moveAssign i j =>
    intro hij rent rent' hi hj
    have hperm := lent_moveAssign hij (live_eq_some.1 hi) (live_eq_some.1 hj)
    have hcount : s.pool.available.length +
        (lent ((s.handles.set i (some rent')).set j (some .moved))).length = s.pool.poolSize := by
      rw [step_moveAssign hij hi hj] at hafter
      exact hafter.size
    have hlength := hperm.length_eq
    rw [List.length_append] at hlength
    have hnone : rent.vm.toList.length = 0 := by omega
    cases hvm : rent.vm with
    | none => rfl
    | some vm =>
      rw [hvm] at hnone
      cases hnone
  | updateApi =>
    have hcount : (List.range' s.pool.nextVm s.pool.poolSize).length + (lent s.handles).length =
        s.pool.poolSize := hafter.size
    rw [List.length_range'] at hcount
    exact List.length_eq_zero_iff.1 (by omega)
  | borrow => trivial
  | destroy i => trivial
  | moveConstruct i => trivial

theorem Balanced.step {s : VMRents} (h : Balanced s) {op : Op} (hsafe : Safe s op) :
    Balanced (step op s).state := by
  cases op with
  | borrow => exact h.borrow
  | destroy i => exact h.destroy i
  | moveConstruct i => exact h.moveConstruct i
  | moveAssign i j => exact h.moveAssign hsafe
  | updateApi => exact h.updateApi hsafe

/-- In every run of a pool, the states are conserved all along exactly if every operation is safe. -/
theorem conserved_iff (p : ℕ) (ops : List Op) :
    (∀ pre, pre <+: ops → Conserved (run (start p) pre)) ↔
      ∀ pre op post, ops = pre ++ op :: post → Safe (run (start p) pre) op :=
  Outcome.run_holds_iff (fun _ h => h.conserved) (balanced_start p) (fun _ _ _ h hsafe => h.step hsafe)
    fun _ _ _ h hafter => safe_of_conserved h hafter

/-! ## A handle that is assigned to, and states that are replaced -/

/-- The state that the first handle held is lost, and the state that is given back to the new ones is one
too many. -/
theorem assigned_and_replaced :
    (run (start 2) [.borrow, .borrow, .moveAssign 0 1]).pool = ⟨2, [0, 1], [], 2⟩ ∧
      lent (run (start 2) [.borrow, .borrow, .moveAssign 0 1]).handles = [1] ∧
      ¬Conserved (run (start 2) [.borrow, .borrow, .moveAssign 0 1]) ∧
      (run (start 2) [.borrow, .updateApi, .destroy 0]).pool = ⟨2, [2, 3], [2, 3, 0], 4⟩ ∧
      ¬Conserved (run (start 2) [.borrow, .updateApi, .destroy 0]) := by
  refine ⟨by decide, by decide, fun h => ?_, by decide, fun h => ?_⟩
  · exact absurd h.size (by decide)
  · exact absurd h.size (by decide)

end VMRents

end LlmGateway
