import Rodos.Holders
import Rodos.TransitionSystem

namespace Rodos.SharedPointers

open Holders References TransitionSystem

/-- The error codes that the pool uses. -/
inductive ErrorCode
  | OK
  | MEMORY
  | BAD_POINTER
deriving DecidableEq

structure Result (α : Type) where
  err : ErrorCode
  val : α

/-- The counters of a pool. An object is given by its index in `buffer`. -/
structure AllocableObjects where
  referenceCnt : Nat → UInt32
  freeCnt : UInt32

section Pool

variable (LENGTH : UInt32)

namespace AllocableObjects

def init : AllocableObjects := ⟨fun _ => 0, LENGTH⟩

def alloc (pool : AllocableObjects) : Option Nat × AllocableObjects :=
  match (List.range LENGTH.toNat).find? (fun i => pool.referenceCnt i == 0) with
  | some i => (some i, ⟨Function.update pool.referenceCnt i 1, pool.freeCnt - 1⟩)
  | none => (none, pool)

def indexOf (item : Nat) : Result Nat :=
  let index := UInt32.ofNat item
  if index > LENGTH then ⟨.BAD_POINTER, 0⟩ else ⟨.OK, index.toNat⟩

def free (pool : AllocableObjects) (item : Nat) : Bool × AllocableObjects :=
  let index := indexOf LENGTH item
  if index.err ≠ .OK then (false, pool)
  else if pool.referenceCnt index.val < 1 then (false, pool)
  else
    let cnt := pool.referenceCnt index.val - 1
    (true, ⟨Function.update pool.referenceCnt index.val cnt,
      if cnt = 0 then pool.freeCnt + 1 else pool.freeCnt⟩)

/-- `none` is the null pointer. -/
def copyReference (pool : AllocableObjects) (item : Nat) : Option Nat × AllocableObjects :=
  let index := indexOf LENGTH item
  if index.err ≠ .OK then (none, pool)
  else if pool.referenceCnt index.val = 0 then (none, pool)
  else (some item,
    { pool with
      referenceCnt := Function.update pool.referenceCnt index.val (pool.referenceCnt index.val + 1) })

end AllocableObjects

end Pool

section Pointers

variable {Pool Var : Type} [DecidableEq Pool] [DecidableEq Var]

/-- The two fields of a pointer, `objectsPool` and `objectPointer`. They are null together. -/
abbrev SharedPtr (Pool : Type) := Option (Pool × Nat)

variable (LENGTH : Pool → UInt32)

/-- What the copy constructor does with the pool. -/
def copyConstruct : SharedPtr Pool → (Pool → AllocableObjects) → Pool → AllocableObjects
  | none, pools => pools
  | some (objectsPool, objectPointer), pools =>
    Function.update pools objectsPool
      ((pools objectsPool).copyReference (LENGTH objectsPool) objectPointer).2

def destruct : SharedPtr Pool → (Pool → AllocableObjects) → Pool → AllocableObjects
  | none, pools => pools
  | some (objectsPool, objectPointer), pools =>
    Function.update pools objectsPool
      ((pools objectsPool).free (LENGTH objectsPool) objectPointer).2

def alloc (pool : Pool) (pools : Pool → AllocableObjects) :
    Result (SharedPtr Pool) × (Pool → AllocableObjects) :=
  match (pools pool).alloc (LENGTH pool) with
  | (some i, counters) =>
    -- the result has got a copy of the pointer that is made first
    let temporary := some (pool, i)
    (⟨.OK, temporary⟩, destruct LENGTH temporary
      (copyConstruct LENGTH temporary (Function.update pools pool counters)))
  | (none, _) => (⟨.MEMORY, none⟩, pools)

/-- The pools and the pointers that live, each with the object that it refers to. -/
structure State (Pool Var : Type) where
  pools : Pool → AllocableObjects
  pointers : References Var (Pool × Nat)

/-- What a program does with the variables that are pointers. The pointer in the result of
`alloc` is one of them. -/
inductive Op (Pool Var : Type)
  | construct (v : Var)
  | alloc (pool : Pool) (v : Var)
  | copy (v other : Var)
  | assign (v other : Var)
  | clear (v : Var)
  | destroy (v : Var)
  | init (pool : Pool)

/-- A variable must live to be used, and must not to be constructed. A pool is initialised
while no pointer refers to it. -/
def step : Op Pool Var → State Pool Var → Option (State Pool Var)
  | .construct v, s =>
    if v ∈ s.pointers.live then none
    else some { s with pointers := s.pointers.construct v none }
  | .alloc pool v, s =>
    if v ∈ s.pointers.live then none
    else
      let (result, pools) := alloc LENGTH pool s.pools
      some ⟨pools, s.pointers.construct v result.val⟩
  | .copy v other, s =>
    if v ∈ s.pointers.live ∨ other ∉ s.pointers.live then none
    else some ⟨copyConstruct LENGTH (s.pointers.value other) s.pools,
      s.pointers.construct v (s.pointers.value other)⟩
  | .assign v other, s =>
    if v ∉ s.pointers.live ∨ other ∉ s.pointers.live then none
    else if v ≠ other then
      let pools := destruct LENGTH (s.pointers.value v) s.pools
      some ⟨copyConstruct LENGTH (s.pointers.value other) pools,
        s.pointers.assign v (s.pointers.value other)⟩
    else some s
  | .clear v, s =>
    if v ∉ s.pointers.live then none
    else some ⟨destruct LENGTH (s.pointers.value v) s.pools, s.pointers.assign v none⟩
  | .destroy v, s =>
    if v ∉ s.pointers.live then none
    else some ⟨destruct LENGTH (s.pointers.value v) s.pools, s.pointers.destroy v⟩
  | .init pool, s =>
    if ∃ v ∈ s.pointers.live, (s.pointers.value v).map Prod.fst = some pool then none
    else some { s with pools := Function.update s.pools pool (.init (LENGTH pool)) }

/-- No pointer lives, and the pools are as their constructors have left them. -/
def Start (s : State Pool Var) : Prop :=
  s.pointers.live = ∅ ∧ ∀ pool, s.pools pool = .init (LENGTH pool)

/-- Fewer than 2 to the power of 32 pointers refer to any object. -/
def Countable (s : State Pool Var) : Prop := ∀ r, s.pointers.holders r < 2 ^ 32

def KeepsCountable (op : Op Pool Var) (s : State Pool Var) : Prop :=
  ∀ t, step LENGTH op s = some t → Countable t

end Pointers

section Counts

def zeros (LENGTH : UInt32) (h : Nat → Nat) : Finset Nat :=
  (Finset.range LENGTH.toNat).filter (fun i => h i = 0)

structure Counts (LENGTH : UInt32) (pool : AllocableObjects) (h : Nat → Nat) : Prop where
  count : ∀ i < LENGTH.toNat, (pool.referenceCnt i).toNat = h i
  free : pool.freeCnt.toNat = (zeros LENGTH h).card

variable {LENGTH : UInt32} {pool : AllocableObjects} {h : Nat → Nat} {i : Nat}

theorem mem_zeros : i ∈ zeros LENGTH h ↔ i < LENGTH.toNat ∧ h i = 0 := by
  rw [zeros, Finset.mem_filter, Finset.mem_range]

theorem zeros_update (hi : i < LENGTH.toNat) (n : Nat) :
    zeros LENGTH (Function.update h i n) =
      if n = 0 then insert i (zeros LENGTH h) else (zeros LENGTH h).erase i := by
  ext k
  by_cases hk : k = i
  · subst hk
    split <;> simp_all [mem_zeros]
  · split <;> simp [mem_zeros, hk]

theorem indexOf_eq (hi : i < LENGTH.toNat) : AllocableObjects.indexOf LENGTH i = ⟨.OK, i⟩ := by
  have hindex : (UInt32.ofNat i).toNat = i := UInt32.toNat_ofNat_of_lt' (hi.trans LENGTH.toNat_lt)
  have hle : ¬ UInt32.ofNat i > LENGTH := by
    rw [gt_iff_lt, UInt32.lt_iff_toNat_lt, hindex]
    omega
  rw [AllocableObjects.indexOf]
  simp only [if_neg hle, hindex]

theorem Counts.init : Counts LENGTH (.init LENGTH) (fun _ => 0) where
  count _ _ := rfl
  free := by simp [AllocableObjects.init, zeros]

theorem Counts.update (hcounts : Counts LENGTH pool h) (hi : i < LENGTH.toNat) {cnt freeCnt : UInt32}
    (hfree : freeCnt.toNat = (zeros LENGTH (Function.update h i cnt.toNat)).card) :
    Counts LENGTH ⟨Function.update pool.referenceCnt i cnt, freeCnt⟩
      (Function.update h i cnt.toNat) := by
  refine ⟨?_, hfree⟩
  intro k hk
  by_cases heq : k = i
  · subst heq
    simp
  · simp only [Function.update_of_ne heq]
    exact hcounts.count k hk

theorem copyReference_eq (hi : i < LENGTH.toNat) (hne : pool.referenceCnt i ≠ 0) :
    (pool.copyReference LENGTH i).2 =
      { pool with referenceCnt := Function.update pool.referenceCnt i (pool.referenceCnt i + 1) } := by
  rw [AllocableObjects.copyReference, indexOf_eq hi]
  simp only [ne_eq, not_true_eq_false, if_false, if_neg hne]

theorem Counts.copyReference (hcounts : Counts LENGTH pool h) (hi : i < LENGTH.toNat)
    (hpos : 0 < h i) (hlt : h i + 1 < 2 ^ 32) :
    Counts LENGTH (pool.copyReference LENGTH i).2 (Function.update h i (h i + 1)) := by
  have hcount := hcounts.count i hi
  have hne : pool.referenceCnt i ≠ 0 := by
    intro hzero
    rw [hzero] at hcount
    exact hpos.ne hcount
  have hnext : (pool.referenceCnt i + 1).toNat = h i + 1 := by
    rw [UInt32.toNat_add, hcount]
    exact Nat.mod_eq_of_lt hlt
  rw [copyReference_eq hi hne, ← hnext]
  apply hcounts.update hi
  rw [zeros_update hi, hnext, if_neg (Nat.succ_ne_zero _), Finset.erase_eq_of_notMem, hcounts.free]
  exact fun hmem => hpos.ne' (mem_zeros.mp hmem).2

theorem Counts.releases (hcounts : Counts LENGTH pool h) (hi : i < LENGTH.toNat) (hpos : 0 < h i) :
    Counts LENGTH (pool.free LENGTH i).2 (Function.update h i (h i - 1)) := by
  have hcount := hcounts.count i hi
  have hone : ¬ pool.referenceCnt i < 1 := by
    rw [UInt32.lt_iff_toNat_lt, hcount]
    exact Nat.not_lt.mpr hpos
  have hnext : (pool.referenceCnt i - 1).toNat = h i - 1 := by
    rw [UInt32.toNat_sub_of_le _ _ (UInt32.not_lt.mp hone), hcount]
    rfl
  have hmem : i ∉ zeros LENGTH h := fun hmem => hpos.ne' (mem_zeros.mp hmem).2
  have hroom : (zeros LENGTH h).card < LENGTH.toNat := by
    have hsub : zeros LENGTH h ⊂ Finset.range LENGTH.toNat :=
      Finset.filter_ssubset.mpr ⟨i, Finset.mem_range.mpr hi, hpos.ne'⟩
    have hlt := Finset.card_lt_card hsub
    rwa [Finset.card_range] at hlt
  have hlength := LENGTH.toNat_lt
  rw [AllocableObjects.free, indexOf_eq hi]
  simp only [ne_eq, not_true_eq_false, if_false, if_neg hone]
  rw [← hnext]
  apply hcounts.update hi
  rw [zeros_update hi]
  by_cases hzero : pool.referenceCnt i - 1 = 0
  · rw [if_pos hzero, hzero, UInt32.toNat_zero, if_pos rfl, Finset.card_insert_of_notMem hmem,
      UInt32.toNat_add, hcounts.free, UInt32.toNat_one]
    exact Nat.mod_eq_of_lt (by omega)
  · have hzero' : (pool.referenceCnt i - 1).toNat ≠ 0 := fun heq => hzero (UInt32.toNat_inj.mp heq)
    rw [if_neg hzero, if_neg hzero', Finset.erase_eq_of_notMem hmem, hcounts.free]

theorem Counts.alloc (hcounts : Counts LENGTH pool h) :
    (∃ i pool', pool.alloc LENGTH = (some i, pool') ∧ i < LENGTH.toNat ∧ h i = 0 ∧
      Counts LENGTH pool' (Function.update h i 1)) ∨
    (pool.alloc LENGTH = (none, pool) ∧ ∀ i < LENGTH.toNat, 0 < h i) := by
  rw [AllocableObjects.alloc]
  split
  · next i hfind =>
    left
    have hi : i < LENGTH.toNat := List.mem_range.mp (List.mem_of_find?_eq_some hfind)
    have hcount := hcounts.count i hi
    have hzero : pool.referenceCnt i = 0 := by simpa using List.find?_some hfind
    rw [hzero] at hcount
    have hmem : i ∈ zeros LENGTH h := mem_zeros.mpr ⟨hi, hcount.symm⟩
    have hpos : 0 < pool.freeCnt.toNat := by
      rw [hcounts.free]
      exact Finset.card_pos.mpr ⟨i, hmem⟩
    refine ⟨i, _, rfl, hi, hcount.symm, ?_⟩
    have hone : (1 : UInt32).toNat = 1 := rfl
    rw [← hone]
    apply hcounts.update hi
    rw [zeros_update hi, hone, if_neg Nat.one_ne_zero, Finset.card_erase_of_mem hmem, ← hcounts.free]
    exact UInt32.toNat_sub_of_le _ _ (UInt32.le_iff_toNat_le.mpr hpos)
  · next hfind =>
    right
    refine ⟨rfl, ?_⟩
    intro i hi
    have hne := List.find?_eq_none.mp hfind i (List.mem_range.mpr hi)
    rw [← hcounts.count i hi]
    apply Nat.pos_of_ne_zero
    intro hzero
    exact hne (beq_iff_eq.mpr (UInt32.toNat_inj.mp hzero))

end Counts

section Pools

variable {Pool : Type} [DecidableEq Pool] {LENGTH : Pool → UInt32}

def Exact (LENGTH : Pool → UInt32) (pools : Pool → AllocableObjects) (h : Pool × Nat → Nat) : Prop :=
  ∀ pool, Counts (LENGTH pool) (pools pool) (fun i => h (pool, i))

def InPool (LENGTH : Pool → UInt32) (x : SharedPtr Pool) : Prop :=
  ∀ r, x = some r → r.2 < (LENGTH r.1).toNat

variable {pools : Pool → AllocableObjects} {h : Pool × Nat → Nat}

/-- A change of one counter in one of the pools. -/
theorem Exact.update (hexact : Exact LENGTH pools h) {pool : Pool} {i n : Nat}
    {counters : AllocableObjects}
    (hcounters : Counts (LENGTH pool) counters (Function.update (fun k => h (pool, k)) i n)) :
    Exact LENGTH (Function.update pools pool counters) (Function.update h (pool, i) n) := by
  intro q
  by_cases hq : q = pool
  · subst hq
    have heq : (fun k => Function.update h (q, i) n (q, k)) =
        Function.update (fun k => h (q, k)) i n := by
      funext k
      by_cases hk : k = i
      · rw [hk, Function.update_self, Function.update_self]
      · rw [Function.update_of_ne hk, Function.update_of_ne fun he => hk (Prod.mk.inj he).2]
    rw [Function.update_self, heq]
    exact hcounters
  · have heq : (fun k => Function.update h (pool, i) n (q, k)) = fun k => h (q, k) := by
      funext k
      exact Function.update_of_ne (fun he => hq (Prod.mk.inj he).1) _ _
    rw [Function.update_of_ne hq, heq]
    exact hexact q

theorem update_add (h : Pool × Nat → Nat) (r : Pool × Nat) :
    Function.update h r (h r + 1) = fun r' => h r' + if some r = some r' then 1 else 0 := by
  funext r'
  by_cases heq : r' = r
  · rw [heq, Function.update_self, if_pos rfl]
  · rw [Function.update_of_ne heq, if_neg fun he => heq (Option.some.inj he).symm, Nat.add_zero]

theorem Exact.copyConstruct (hexact : Exact LENGTH pools h) {x : SharedPtr Pool}
    (hx : InPool LENGTH x) (hcount : ∀ r, x = some r → 0 < h r ∧ h r + 1 < 2 ^ 32) :
    Exact LENGTH (copyConstruct LENGTH x pools) (fun r => h r + if x = some r then 1 else 0) := by
  cases x with
  | none => exact hexact
  | some r =>
    obtain ⟨hpos, hlt⟩ := hcount r rfl
    rw [← update_add]
    exact hexact.update ((hexact r.1).copyReference (hx r rfl) hpos hlt)

theorem Exact.destruct {x : SharedPtr Pool} (hx : InPool LENGTH x)
    (hexact : Exact LENGTH pools (fun r => h r + if x = some r then 1 else 0)) :
    Exact LENGTH (destruct LENGTH x pools) h := by
  cases x with
  | none => exact hexact
  | some r =>
    rw [← update_add] at hexact
    have hpos : 0 < Function.update h r (h r + 1) (r.1, r.2) := by
      rw [Function.update_self]
      exact Nat.succ_pos _
    have hfree := hexact.update ((hexact r.1).releases (hx r rfl) hpos)
    rw [Function.update_self, Nat.add_sub_cancel, Function.update_idem, Function.update_eq_self] at hfree
    exact hfree

theorem Exact.alloc (hexact : Exact LENGTH pools h) (pool : Pool) :
    (∃ i, (alloc LENGTH pool pools).1 = ⟨.OK, some (pool, i)⟩ ∧ i < (LENGTH pool).toNat ∧
      h (pool, i) = 0 ∧ Exact LENGTH (alloc LENGTH pool pools).2
        (fun r => h r + if some (pool, i) = some r then 1 else 0)) ∨
    (alloc LENGTH pool pools = (⟨.MEMORY, none⟩, pools) ∧
      ∀ i < (LENGTH pool).toNat, 0 < h (pool, i)) := by
  obtain ⟨i, counters, halloc, hi, hzero, hcounts⟩ | ⟨halloc, hall⟩ := (hexact pool).alloc
  · left
    have hinPool : InPool LENGTH (some (pool, i)) := fun r hr => Option.some.inj hr ▸ hi
    have hone : (1 : Nat) = h (pool, i) + 1 := by
      rw [hzero]
    rw [hone] at hcounts
    have hfirst := hexact.update hcounts
    rw [update_add] at hfirst
    refine ⟨i, ?_, hi, hzero, ?_⟩
    · rw [SharedPointers.alloc, halloc]
    · rw [SharedPointers.alloc, halloc]
      apply Exact.destruct hinPool
      apply hfirst.copyConstruct hinPool
      intro r hr
      rw [hr, if_pos rfl, ← Option.some.inj hr, hzero]
      decide
  · right
    rw [SharedPointers.alloc, halloc]
    exact ⟨rfl, hall⟩

end Pools

section Steps

variable {Pool Var : Type} {LENGTH : Pool → UInt32}

theorem inPool_none : InPool LENGTH none := nofun

/-- The counters say how many of the living pointers refer to each object. -/
structure Inv [DecidableEq Pool] (LENGTH : Pool → UInt32) (s : State Pool Var) : Prop where
  exact : Exact LENGTH s.pools s.pointers.holders
  inPool : ∀ v ∈ s.pointers.live, InPool LENGTH (s.pointers.value v)

theorem inv_start [DecidableEq Pool] {s : State Pool Var} (h : Start LENGTH s) : Inv LENGTH s := by
  obtain ⟨hlive, hpools⟩ := h
  constructor
  · intro pool
    have hzero : (fun i => s.pointers.holders (pool, i)) = fun _ => 0 := by
      funext i
      rw [holders, hlive]
      rfl
    rw [hzero, hpools]
    exact Counts.init
  · rw [hlive]
    intro v hv
    exact absurd hv (Finset.notMem_empty v)

variable [DecidableEq Var]

theorem inPool_construct {pointers : References Var (Pool × Nat)} {v : Var} {x : SharedPtr Pool}
    (h : ∀ u ∈ pointers.live, InPool LENGTH (pointers.value u)) (hx : InPool LENGTH x) :
    ∀ u ∈ (pointers.construct v x).live, InPool LENGTH ((pointers.construct v x).value u) := by
  intro u hu
  rw [construct]
  dsimp only
  by_cases heq : u = v
  · rw [heq, Function.update_self]
    exact hx
  · rw [Function.update_of_ne heq]
    exact h u (Finset.mem_of_mem_insert_of_ne hu heq)

theorem inPool_assign {pointers : References Var (Pool × Nat)} {v : Var} {x : SharedPtr Pool}
    (h : ∀ u ∈ pointers.live, InPool LENGTH (pointers.value u)) (hx : InPool LENGTH x) :
    ∀ u ∈ (pointers.assign v x).live, InPool LENGTH ((pointers.assign v x).value u) :=
  fun u hu => inPool_construct h hx u (Finset.mem_insert_of_mem hu)

variable [DecidableEq Pool] {s t : State Pool Var} {v other : Var}

theorem Inv.destruct (h : Inv LENGTH s) (hv : v ∈ s.pointers.live) :
    Exact LENGTH (destruct LENGTH (s.pointers.value v) s.pools) (s.pointers.destroy v).holders := by
  apply Exact.destruct (h.inPool v hv)
  have hsplit : (fun r => (s.pointers.destroy v).holders r +
      if s.pointers.value v = some r then 1 else 0) = s.pointers.holders := by
    funext r
    exact holders_destroy hv r
  rw [hsplit]
  exact h.exact

theorem Inv.construct (h : Inv LENGTH s) (hv : v ∉ s.pointers.live) :
    Inv LENGTH { s with pointers := s.pointers.construct v none } := by
  refine ⟨?_, inPool_construct h.inPool inPool_none⟩
  have hholders : (s.pointers.construct v none).holders = s.pointers.holders := by
    funext r
    exact holders_construct hv none r
  rw [hholders]
  exact h.exact

theorem Inv.alloc (h : Inv LENGTH s) (pool : Pool) (hv : v ∉ s.pointers.live) :
    Inv LENGTH ⟨(alloc LENGTH pool s.pools).2,
      s.pointers.construct v (alloc LENGTH pool s.pools).1.val⟩ := by
  obtain ⟨i, hresult, hi, -, hexact⟩ | ⟨hresult, -⟩ := h.exact.alloc pool
  · rw [hresult]
    refine ⟨?_, inPool_construct h.inPool fun r hr => Option.some.inj hr ▸ hi⟩
    rw [funext (holders_construct hv (some (pool, i)))]
    exact hexact
  · rw [hresult]
    exact h.construct hv

theorem Inv.copy (h : Inv LENGTH s) (hv : v ∉ s.pointers.live) (hother : other ∈ s.pointers.live)
    (hlt : ∀ r, (s.pointers.construct v (s.pointers.value other)).holders r < 2 ^ 32) :
    Inv LENGTH ⟨copyConstruct LENGTH (s.pointers.value other) s.pools,
      s.pointers.construct v (s.pointers.value other)⟩ := by
  have hx := h.inPool other hother
  refine ⟨?_, inPool_construct h.inPool hx⟩
  rw [funext (holders_construct hv (s.pointers.value other))] at *
  apply h.exact.copyConstruct hx
  intro r hr
  have hr' := hlt r
  dsimp only at hr'
  rw [if_pos hr] at hr'
  exact ⟨holders_pos_iff.mpr ⟨other, hother, hr⟩, hr'⟩

/-- What `v` referred to is freed first. The other pointer still counts for its object then. -/
theorem Inv.assign (h : Inv LENGTH s) (hv : v ∈ s.pointers.live) (hother : other ∈ s.pointers.live)
    (hne : v ≠ other) (hlt : ∀ r, (s.pointers.assign v (s.pointers.value other)).holders r < 2 ^ 32) :
    Inv LENGTH ⟨copyConstruct LENGTH (s.pointers.value other)
      (SharedPointers.destruct LENGTH (s.pointers.value v) s.pools),
      s.pointers.assign v (s.pointers.value other)⟩ := by
  have hx := h.inPool other hother
  refine ⟨?_, inPool_assign h.inPool hx⟩
  rw [funext (holders_assign hv (s.pointers.value other))] at *
  apply (h.destruct hv).copyConstruct hx
  intro r hr
  have hr' := hlt r
  dsimp only at hr'
  rw [if_pos hr] at hr'
  exact ⟨holders_destroy_pos hother hr hne.symm, hr'⟩

theorem Inv.clear (h : Inv LENGTH s) (hv : v ∈ s.pointers.live) :
    Inv LENGTH ⟨SharedPointers.destruct LENGTH (s.pointers.value v) s.pools,
      s.pointers.assign v none⟩ := by
  refine ⟨?_, inPool_assign h.inPool inPool_none⟩
  rw [funext (holders_assign hv none)]
  exact h.destruct hv

theorem Inv.destroy (h : Inv LENGTH s) (hv : v ∈ s.pointers.live) :
    Inv LENGTH ⟨SharedPointers.destruct LENGTH (s.pointers.value v) s.pools,
      s.pointers.destroy v⟩ :=
  ⟨h.destruct hv, fun u hu => h.inPool u (Finset.mem_of_mem_erase hu)⟩

omit [DecidableEq Var] in
theorem Inv.init (h : Inv LENGTH s) {pool : Pool}
    (hfree : ¬ ∃ v ∈ s.pointers.live, (s.pointers.value v).map Prod.fst = some pool) :
    Inv LENGTH { s with pools := Function.update s.pools pool (.init (LENGTH pool)) } := by
  refine ⟨?_, h.inPool⟩
  intro q
  by_cases hq : q = pool
  · subst hq
    have hzero : (fun i => s.pointers.holders (q, i)) = fun _ => 0 := by
      funext i
      rw [holders, Finset.card_eq_zero, Finset.filter_eq_empty_iff]
      intro v hv heq
      exact hfree ⟨v, hv, by rw [heq, Option.map_some]⟩
    dsimp only
    rw [Function.update_self, hzero]
    exact Counts.init
  · dsimp only
    rw [Function.update_of_ne hq]
    exact h.exact q

theorem inv_step (h : Inv LENGTH s) (op : Op Pool Var) (hcountable : KeepsCountable LENGTH op s)
    (hstep : step LENGTH op s = some t) : Inv LENGTH t := by
  have ht := hcountable t hstep
  cases op with
  | construct v =>
    obtain ⟨hv, heq⟩ := Option.ite_none_left_eq_some.mp hstep
    obtain rfl := Option.some.inj heq
    exact h.construct hv
  | alloc pool v =>
    obtain ⟨hv, heq⟩ := Option.ite_none_left_eq_some.mp hstep
    obtain rfl := Option.some.inj heq
    exact h.alloc pool hv
  | copy v other =>
    obtain ⟨hv, heq⟩ := Option.ite_none_left_eq_some.mp hstep
    obtain rfl := Option.some.inj heq
    obtain ⟨hv, hother⟩ := not_or.mp hv
    exact h.copy hv (not_not.mp hother) ht
  | assign v other =>
    obtain ⟨hv, heq⟩ := Option.ite_none_left_eq_some.mp hstep
    obtain ⟨hv, hother⟩ := not_or.mp hv
    by_cases hne : v ≠ other
    · rw [if_pos hne] at heq
      obtain rfl := Option.some.inj heq
      exact h.assign (not_not.mp hv) (not_not.mp hother) hne ht
    · rw [if_neg hne] at heq
      obtain rfl := Option.some.inj heq
      exact h
  | clear v =>
    obtain ⟨hv, heq⟩ := Option.ite_none_left_eq_some.mp hstep
    obtain rfl := Option.some.inj heq
    exact h.clear (not_not.mp hv)
  | destroy v =>
    obtain ⟨hv, heq⟩ := Option.ite_none_left_eq_some.mp hstep
    obtain rfl := Option.some.inj heq
    exact h.destroy (not_not.mp hv)
  | init pool =>
    obtain ⟨hfree, heq⟩ := Option.ite_none_left_eq_some.mp hstep
    obtain rfl := Option.some.inj heq
    exact h.init hfree

end Steps

section Runs

variable {Pool Var : Type} [DecidableEq Pool] [DecidableEq Var]

/-- In every run in which no object gets 2 to the power of 32 pointers, the counters are the
numbers of the pointers, and `alloc` fails only if all objects are referred to. -/
theorem counts_references (LENGTH : Pool → UInt32) {s : State Pool Var}
    (h : ReachableUnder (Start LENGTH) (step LENGTH) (KeepsCountable LENGTH) s) (pool : Pool) :
    (∀ i < (LENGTH pool).toNat,
      ((s.pools pool).referenceCnt i).toNat = s.pointers.holders (pool, i)) ∧
    (s.pools pool).freeCnt.toNat = ((Finset.range (LENGTH pool).toNat).filter
      (fun i => (s.pools pool).referenceCnt i = 0)).card ∧
    ((alloc LENGTH pool s.pools).1.err = .MEMORY ↔
      ∀ i < (LENGTH pool).toNat, ∃ v ∈ s.pointers.live, s.pointers.value v = some (pool, i)) ∧
    ((alloc LENGTH pool s.pools).1.err ≠ .MEMORY → ∃ i < (LENGTH pool).toNat,
      (alloc LENGTH pool s.pools).1 = ⟨.OK, some (pool, i)⟩ ∧
      ∀ v ∈ s.pointers.live, s.pointers.value v ≠ some (pool, i)) := by
  have hinv : Inv LENGTH s := h.invariant (Inv LENGTH) (fun _ => inv_start) fun op s t hs hok hstep =>
    inv_step hs op hok hstep
  have hcounts := hinv.exact pool
  have hfree : (s.pools pool).freeCnt.toNat = ((Finset.range (LENGTH pool).toNat).filter
      (fun i => (s.pools pool).referenceCnt i = 0)).card := by
    rw [hcounts.free, zeros]
    congr 1
    apply Finset.filter_congr
    intro i hi
    rw [← hcounts.count i (Finset.mem_range.mp hi), ← UInt32.toNat_inj]
    rfl
  refine ⟨hcounts.count, hfree, ?_⟩
  obtain ⟨i, hresult, hi, hzero, -⟩ | ⟨hresult, hall⟩ := hinv.exact.alloc pool
  · have hnone : ¬ ∃ v ∈ s.pointers.live, s.pointers.value v = some (pool, i) := by
      rw [← holders_pos_iff, hzero]
      exact lt_irrefl 0
    rw [hresult]
    refine ⟨iff_of_false nofun fun hall => hnone (hall i hi), fun _ => ⟨i, hi, rfl, ?_⟩⟩
    exact fun v hv heq => hnone ⟨v, hv, heq⟩
  · rw [hresult]
    exact ⟨iff_of_true rfl fun i hi => holders_pos_iff.mp (hall i hi), fun hne => absurd rfl hne⟩

section Examples

def one (_ : Unit) : UInt32 := 1

def constructed : State Unit Nat := ⟨fun _ => .init 1, ⟨∅, fun _ => none⟩⟩

def allocated : State Unit Nat :=
  ⟨(alloc one () constructed.pools).2,
    constructed.pointers.construct 0 (alloc one () constructed.pools).1.val⟩

theorem step_allocated : step one (.alloc () 0) constructed = some allocated := by
  have hnew : 0 ∉ constructed.pointers.live := Finset.notMem_empty 0
  rw [step, if_neg hnew]
  rfl

theorem counts_references_allocated : (alloc one () allocated.pools).1.err = .MEMORY := by
  have hkeeps : KeepsCountable one (.alloc () 0) constructed := by
    intro t ht r
    obtain rfl := Option.some.inj (step_allocated.symm.trans ht)
    exact (holders_le _ r).trans_lt (by decide)
  have hstart : ReachableUnder (Start one) (step one) (KeepsCountable one) constructed :=
    .start ⟨rfl, fun _ => rfl⟩
  apply (counts_references one (hstart.step hkeeps step_allocated) ()).2.2.1.mpr
  intro i hi
  obtain rfl : i = 0 := Nat.lt_one_iff.mp hi
  exact ⟨0, by decide, rfl⟩

structure Copied (n : Nat) (s : State Unit Nat) : Prop where
  live : s.pointers.live = Finset.range (n + 1)
  value : ∀ v ∈ s.pointers.live, s.pointers.value v = some ((), 0)
  count : ((s.pools ()).referenceCnt 0).toNat = (n + 1) % 2 ^ 32

theorem exists_copied (n : Nat) (hn : n < 2 ^ 32) :
    ∃ s, Reachable (Start one) (step one) s ∧ Copied n s := by
  induction n with
  | zero =>
    refine ⟨allocated, .step (.start ⟨rfl, fun _ => rfl⟩) trivial step_allocated, rfl, ?_, rfl⟩
    intro v hv
    obtain rfl : v = 0 := Finset.mem_singleton.mp hv
    rfl
  | succ n ih =>
    obtain ⟨s, hs, hcopied⟩ := ih (Nat.lt_of_succ_lt hn)
    have hnew : n + 1 ∉ s.pointers.live := by
      rw [hcopied.live]
      exact Finset.notMem_range_self
    have hfirst : 0 ∈ s.pointers.live := by
      rw [hcopied.live]
      exact Finset.mem_range.mpr (Nat.succ_pos n)
    have hvalue := hcopied.value 0 hfirst
    have hcount := hcopied.count
    rw [Nat.mod_eq_of_lt hn] at hcount
    have hne : (s.pools ()).referenceCnt 0 ≠ 0 := by
      intro hzero
      rw [hzero] at hcount
      exact Nat.succ_ne_zero n hcount.symm
    have hstep : step one (.copy (n + 1) 0) s =
        some ⟨copyConstruct one (s.pointers.value 0) s.pools,
          s.pointers.construct (n + 1) (s.pointers.value 0)⟩ := by
      rw [step, if_neg (not_or.mpr ⟨hnew, not_not.mpr hfirst⟩)]
    refine ⟨_, .step hs trivial hstep, ?_, ?_, ?_⟩
    · rw [hvalue, construct, hcopied.live, ← Finset.range_add_one]
    · intro v hv
      rw [hvalue, construct]
      dsimp only
      by_cases heq : v = n + 1
      · rw [heq, Function.update_self]
      · rw [Function.update_of_ne heq]
        exact hcopied.value v (Finset.mem_of_mem_insert_of_ne hv heq)
    · dsimp only
      rw [hvalue, copyConstruct, Function.update_self,
        copyReference_eq (show 0 < (one ()).toNat by decide) hne]
      dsimp only
      rw [Function.update_self, UInt32.toNat_add, hcount]
      rfl

theorem counts_wrap : ¬ ∀ s : State Unit Nat, Reachable (Start one) (step one) s →
    ∀ i < (one ()).toNat, ((s.pools ()).referenceCnt i).toNat = s.pointers.holders ((), i) := by
  intro h
  obtain ⟨s, hs, hcopied⟩ := exists_copied (2 ^ 32 - 1) (by decide)
  have hcount := h s hs 0 (by decide)
  have hall : s.pointers.live.filter (fun v => s.pointers.value v = some ((), 0)) = s.pointers.live :=
    Finset.filter_true_of_mem hcopied.value
  rw [hcopied.count, holders, hall, hcopied.live, Finset.card_range] at hcount
  exact absurd hcount (by decide)

end Examples

end Runs

end Rodos.SharedPointers
