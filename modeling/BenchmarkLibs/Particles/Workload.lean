import BenchmarkLibs.Particles.Fixtures
import Mathlib.Logic.Function.Basic
import Mathlib.Tactic.Linarith

/-!
# The workload of a Celero set-up

The Celero program has three particle fixtures: a vector of objects, a vector of shuffled pointers and one
of pointers in allocation order. No set-up resets `randSeed`, so what a set-up generates depends on how many
values everything before it has drawn: two set-ups of the same size generate the same particles exactly when
their seeds are congruent modulo 100 (`setUp_sameWorkload_iff`).
-/

namespace BenchmarkLibs

open Fallible Storage

variable {F : Type} [Add F] [Mul F] [OfScientific F] [IntCast F]

/-! ### The process -/

/-- `ParticlesObjVectorFixture`, or `ParticlesPtrVectorFixture` by the result of `randomizeAddresses()`,
which is false in `ParticlesPtrVectorNoRandFixture`. -/
inductive FixtureKind
  | obj
  | ptr (randomizeAddresses : Bool)

/-- The particles of the three fixtures, the heap behind their pointers and the global counter. -/
structure Process (F : Type) where
  obj : List (TParticle F 1)
  ptr : Bool → List (Option Nat)
  heap : List (TParticle F 1)
  randSeed : Int

def Process.start (F : Type) : Process F := ⟨[], fun _ => [], [], 10⟩

/-- `setUp(experimentValue)`, with the results of `rand` that it draws. -/
def Process.setUp (P : Process F) (experimentValue : Nat) (rand : Nat → Nat) :
    FixtureKind → Except Fault (Process F)
  | .obj => do
    let (particles, randSeed) ← objSetUp F 1 experimentValue P.randSeed
    .ok { P with obj := particles, randSeed := randSeed }
  | .ptr randomize => do
    let rearrange := if randomize then randomizeAddresses experimentValue rand else .ok
    let (v, randSeed) ← ptrSetUp 1 experimentValue rearrange P.heap P.randSeed
    .ok { P with ptr := Function.update P.ptr randomize v.particles, heap := v.heap, randSeed := randSeed }

inductive Command (F : Type)
  | setUp (fixture : FixtureKind) (experimentValue : Nat) (rand : Nat → Nat)
  | pass (fixture : FixtureKind) (dt : F)
  | tearDown (fixture : FixtureKind)

section Runs

variable [Sub F] [LT F] [DecidableLT F]

def Process.perform (P : Process F) : Command F → Except Fault (Process F)
  | .setUp fixture experimentValue rand => P.setUp experimentValue rand fixture
  | .pass .obj dt => do
    let (particles, randSeed) ← forEach (TParticle.update dt) P.obj P.randSeed
    .ok { P with obj := particles, randSeed := randSeed }
  | .pass (.ptr randomize) dt => do
    let (heap, randSeed) ← forEachPtr (TParticle.update dt) (P.ptr randomize) P.heap P.randSeed
    .ok { P with heap := heap, randSeed := randSeed }
  | .tearDown .obj => .ok { P with obj := [] }
  | .tearDown (.ptr randomize) => .ok { P with ptr := Function.update P.ptr randomize [] }

def Process.run (P : Process F) (history : List (Command F)) : Except Fault (Process F) :=
  history.foldlM Process.perform P

end Runs

/-! ### Workloads -/

structure Workload (F : Type) where
  acc : Vector F 4
  vel : Vector F 4
  pos : Vector F 4
  rot : F
  time : F

def TParticle.workload {BufSize : Nat} (p : TParticle F BufSize) : Workload F :=
  ⟨p.acc, p.vel, p.pos, p.rot, p.time⟩

/-- The workload at each index of a fixture's vector, which a null or dangling pointer does not have. -/
def Process.workload (P : Process F) : FixtureKind → List (Option (Workload F))
  | .obj => P.obj.map fun p => some p.workload
  | .ptr randomize => (P.ptr randomize).map fun pointer =>
    pointer.bind fun address => P.heap[address]?.map TParticle.workload

/-- In both processes a set-up of this size succeeds, and it leaves the same workloads at every index. -/
def SameWorkload (experimentValue : Nat) (fixture₁ fixture₂ : FixtureKind) (rand₁ rand₂ : Nat → Nat)
    (P₁ P₂ : Process F) : Prop :=
  ∃ Q₁ Q₂, P₁.setUp experimentValue rand₁ fixture₁ = .ok Q₁ ∧
    P₂.setUp experimentValue rand₂ fixture₂ = .ok Q₂ ∧
    Q₁.workload fixture₁ = Q₂.workload fixture₂

def workloadAt (F : Type) [Add F] [Mul F] [OfScientific F] [IntCast F] (randSeed : Int) : Workload F :=
  ((TParticle.zero F 1).generated randSeed).workload

/-- Each particle of a set-up is made from the eight draws after those of the particle before it. -/
theorem objSetUp_eq (BufSize n : Nat) {randSeed : Int} (h : randSeed ≤ intMax) :
    objSetUp F BufSize n randSeed = if randSeed + 8 * n ≤ intMax then
      .ok ((List.range n).map fun i : Nat => (TParticle.zero F BufSize).generated (randSeed + 8 * i),
        randSeed + 8 * n)
      else .error .intOverflow := by
  rw [objSetUp]
  induction n generalizing randSeed with
  | zero => simp [forEach, h]
  | succ n ih =>
    rw [List.replicate_succ, forEach, TParticle.generate_eq]
    by_cases hfirst : randSeed + 8 ≤ intMax
    · simp only [if_pos hfirst, ok_bind, ih hfirst]
      have hcount : randSeed + 8 + 8 * (n : Int) = randSeed + 8 * ((n + 1 : Nat) : Int) := by push_cast; ring
      rw [hcount]
      split
      · have hnext : ∀ i : Nat, randSeed + 8 + 8 * (i : Int) = randSeed + 8 * ((i + 1 : Nat) : Int) := by
          intro i; push_cast; ring
        simp [List.range_succ_eq_map, Function.comp_def, hnext]
      · rfl
    · rw [if_neg hfirst, if_neg (by push_cast; omega)]
      rfl

private theorem rearrange_perm (randomize : Bool) (n : Nat) (rand : Nat → Nat)
    (pointers : List (Option Nat)) (hlen : pointers.length = n) :
    Succeeds ((if randomize then randomizeAddresses n rand else .ok) pointers) (·.Perm pointers) := by
  cases randomize
  · exact .ok (List.Perm.refl _)
  · subst hlen
    exact randomizeAddresses_perm rand pointers

theorem Process.setUp_succeeds (P : Process F) {n : Nat} (rand : Nat → Nat) (fixture : FixtureKind)
    (hroom : P.randSeed + 8 * n ≤ intMax) :
    Succeeds (P.setUp n rand fixture) fun Q =>
      Q.workload fixture = ((List.range n).map fun i : Nat => some (workloadAt F (P.randSeed + 8 * i))) ∧
      Q.randSeed = P.randSeed + 8 * n := by
  have hobj := objSetUp_eq (F := F) 1 n (by omega : P.randSeed ≤ intMax)
  rw [if_pos hroom] at hobj
  cases fixture with
  | obj =>
    simp only [setUp, hobj, ok_bind]
    exact .ok ⟨List.map_map, rfl⟩
  | ptr randomize =>
    have hptr := ptrSetUp_refines (rearrange_perm randomize n rand) P.heap P.randSeed
    rw [hobj] at hptr
    obtain ⟨v, hv, a, rfl, -, hreaches, hseed⟩ := hptr.succeeds ⟨_, rfl, rfl⟩
    simp only [setUp, hv, ok_bind]
    refine .ok ⟨?_, hseed.symm⟩
    simp only [workload, Function.update_self, hreaches.pointsTo.map_pointees, List.map_map]
    rfl

theorem Process.setUp_overflows (P : Process F) {n : Nat} (rand : Nat → Nat) (fixture : FixtureKind)
    (hseed : P.randSeed ≤ intMax) (hroom : ¬ P.randSeed + 8 * n ≤ intMax) :
    P.setUp n rand fixture = .error .intOverflow := by
  have hobj := objSetUp_eq (F := F) 1 n hseed
  rw [if_neg hroom] at hobj
  cases fixture with
  | obj => simp only [setUp, hobj, error_bind]
  | ptr randomize =>
    have hptr := ptrSetUp_refines (rearrange_perm randomize n rand) P.heap P.randSeed
    rw [hobj] at hptr
    simp only [setUp, hptr.eq_error, error_bind]

/-- The hundred values that `randF` can give are different numbers. -/
def DistinctDraws (F : Type) [Mul F] [OfScientific F] [IntCast F] : Prop :=
  ∀ j k : Int, 0 ≤ j → j < 100 → 0 ≤ k → k < 100 → (0.01 : F) * (j : F) = 0.01 * (k : F) → j = k

theorem workloadAt_congr {s t : Int} (hs : 0 ≤ s) (ht : 0 ≤ t) (h : s % 100 = t % 100) :
    workloadAt F s = workloadAt F t := by
  have hzero : SameMotion (TParticle.zero F 1) (TParticle.zero F 1) :=
    ⟨rfl, rfl, rfl, rfl, rfl, rfl, fun _ _ _ => rfl⟩
  have hsame := hzero.generated (⟨hs, ht, h, by omega⟩ : InStep s t s t)
  simp only [workloadAt, TParticle.workload, hsame.acc, hsame.vel, hsame.pos, hsame.rot, hsame.time]

theorem workloadAt_inj (hdraws : DistinctDraws F) {s t : Int} (hs : 0 ≤ s) (ht : 0 ≤ t)
    (h : workloadAt F s = workloadAt F t) : s % 100 = t % 100 := by
  have hacc : randValue F (s + 0) = randValue F (t + 0) := congrArg (fun w => w.acc[0]) h
  rw [Int.add_zero, Int.add_zero, randValue, randValue, Int.tmod_eq_emod_of_nonneg hs,
    Int.tmod_eq_emod_of_nonneg ht] at hacc
  exact hdraws _ _ (by omega) (by omega) (by omega) (by omega) hacc

/-- Two set-ups of one size have the same workload exactly when their seeds are congruent modulo 100 or
nothing is drawn, and neither overflows. -/
theorem sameWorkload_iff (hdraws : DistinctDraws F) (n : Nat) (fixture₁ fixture₂ : FixtureKind)
    (rand₁ rand₂ : Nat → Nat) {P₁ P₂ : Process F} (h₁ : 0 ≤ P₁.randSeed ∧ P₁.randSeed ≤ intMax)
    (h₂ : 0 ≤ P₂.randSeed ∧ P₂.randSeed ≤ intMax) :
    SameWorkload n fixture₁ fixture₂ rand₁ rand₂ P₁ P₂ ↔
      (n = 0 ∨ P₁.randSeed % 100 = P₂.randSeed % 100) ∧
      P₁.randSeed + 8 * n ≤ intMax ∧ P₂.randSeed + 8 * n ≤ intMax := by
  constructor
  · rintro ⟨Q₁, Q₂, hQ₁, hQ₂, hsame⟩
    have hroom₁ : P₁.randSeed + 8 * n ≤ intMax := by
      by_contra hroom
      rw [P₁.setUp_overflows rand₁ fixture₁ h₁.2 hroom] at hQ₁
      cases hQ₁
    have hroom₂ : P₂.randSeed + 8 * n ≤ intMax := by
      by_contra hroom
      rw [P₂.setUp_overflows rand₂ fixture₂ h₂.2 hroom] at hQ₂
      cases hQ₂
    refine ⟨?_, hroom₁, hroom₂⟩
    obtain ⟨_, hset₁, hworkload₁, -⟩ := P₁.setUp_succeeds rand₁ fixture₁ hroom₁
    obtain ⟨_, hset₂, hworkload₂, -⟩ := P₂.setUp_succeeds rand₂ fixture₂ hroom₂
    obtain rfl := Except.ok.inj (hQ₁.symm.trans hset₁)
    obtain rfl := Except.ok.inj (hQ₂.symm.trans hset₂)
    rw [hworkload₁, hworkload₂] at hsame
    rcases Nat.eq_zero_or_pos n with hn | hn
    · exact .inl hn
    · -- the first particles already tell the seeds apart
      have hfirst := congrArg (fun l => l[0]?) hsame
      simp only [List.getElem?_map, List.getElem?_range hn, Option.map_some, Option.some.injEq] at hfirst
      have hmod := workloadAt_inj hdraws (by omega) (by omega) hfirst
      exact .inr (by omega)
  · rintro ⟨hn, hroom₁, hroom₂⟩
    obtain ⟨Q₁, hset₁, hworkload₁, -⟩ := P₁.setUp_succeeds rand₁ fixture₁ hroom₁
    obtain ⟨Q₂, hset₂, hworkload₂, -⟩ := P₂.setUp_succeeds rand₂ fixture₂ hroom₂
    refine ⟨Q₁, Q₂, hset₁, hset₂, ?_⟩
    rw [hworkload₁, hworkload₂]
    rcases hn with rfl | hcongr
    · rfl
    · refine List.map_congr_left fun i _ => ?_
      have hsame : workloadAt F (P₁.randSeed + 8 * i) = workloadAt F (P₂.randSeed + 8 * i) :=
        workloadAt_congr (by omega) (by omega) (by omega)
      rw [hsame]

/-! ### Histories -/

def InRange (randSeed : Int) : Prop := 10 ≤ randSeed ∧ randSeed ≤ intMax

private theorem generate_inRange (p : TParticle F 1) (randSeed : Int) (a : TParticle F 1 × Int)
    (h : p.generate randSeed = .ok a) (hseed : InRange randSeed) : InRange a.2 := by
  rw [TParticle.generate_eq] at h
  split_ifs at h with hroom
  cases h
  exact ⟨by linarith [hseed.1], hroom⟩

theorem Process.setUp_inRange {P Q : Process F} {n : Nat} {rand : Nat → Nat} {fixture : FixtureKind}
    (h : P.setUp n rand fixture = .ok Q) (hseed : InRange P.randSeed) : InRange Q.randSeed := by
  cases fixture with
  | obj =>
    obtain ⟨a, hrun, h⟩ := bind_eq_ok.mp h
    cases h
    exact forEach_preserves generate_inRange hrun hseed
  | ptr randomize =>
    obtain ⟨a, hrun, h⟩ := bind_eq_ok.mp h
    cases h
    obtain ⟨pointers, -, hrun⟩ := bind_eq_ok.mp hrun
    obtain ⟨b, hpass, hrun⟩ := bind_eq_ok.mp hrun
    cases hrun
    exact forEachPtr_preserves generate_inRange hpass hseed

section Histories

variable [Sub F] [LT F] [DecidableLT F]

private theorem update_inRange (dt : F) (p : TParticle F 1) (randSeed : Int) (a : TParticle F 1 × Int)
    (h : p.update dt randSeed = .ok a) (hseed : InRange randSeed) : InRange a.2 := by
  rw [TParticle.update] at h
  split_ifs at h
  · exact generate_inRange _ _ a h hseed
  · cases h
    exact hseed

theorem Process.perform_inRange {P Q : Process F} {command : Command F} (h : P.perform command = .ok Q)
    (hseed : InRange P.randSeed) : InRange Q.randSeed := by
  cases command with
  | setUp fixture n rand => exact Process.setUp_inRange h hseed
  | pass fixture dt =>
    cases fixture with
    | obj =>
      obtain ⟨a, hpass, h⟩ := bind_eq_ok.mp h
      cases h
      exact forEach_preserves (update_inRange dt) hpass hseed
    | ptr randomize =>
      obtain ⟨a, hpass, h⟩ := bind_eq_ok.mp h
      cases h
      exact forEachPtr_preserves (update_inRange dt) hpass hseed
  | tearDown fixture =>
    cases fixture with
    | obj => cases h; exact hseed
    | ptr randomize => cases h; exact hseed

theorem Process.run_inRange {P : Process F} {history : List (Command F)}
    (h : (Process.start F).run history = .ok P) : InRange P.randSeed :=
  foldlM_preserves (P := fun P : Process F => InRange P.randSeed)
    (fun _ _ _ _ hstep hseed => Process.perform_inRange hstep hseed) h (⟨by decide, by decide⟩ : InRange 10)

/-- After any two histories, set-ups of `n` particles have the same workload exactly when the histories have
left `randSeed` congruent modulo 100, or `n` is zero, and neither set-up overflows. -/
theorem setUp_sameWorkload_iff (hdraws : DistinctDraws F) (history₁ history₂ : List (Command F))
    (P₁ P₂ : Process F) (h₁ : (Process.start F).run history₁ = .ok P₁)
    (h₂ : (Process.start F).run history₂ = .ok P₂) (n : Nat) (fixture₁ fixture₂ : FixtureKind)
    (rand₁ rand₂ : Nat → Nat) :
    SameWorkload n fixture₁ fixture₂ rand₁ rand₂ P₁ P₂ ↔
      (n = 0 ∨ P₁.randSeed % 100 = P₂.randSeed % 100) ∧
      P₁.randSeed + 8 * n ≤ intMax ∧ P₂.randSeed + 8 * n ≤ intMax := by
  have hseed₁ := Process.run_inRange h₁
  have hseed₂ := Process.run_inRange h₂
  exact sameWorkload_iff hdraws n fixture₁ fixture₂ rand₁ rand₂ ⟨by linarith [hseed₁.1], hseed₁.2⟩
    ⟨by linarith [hseed₂.1], hseed₂.2⟩

end Histories

theorem distinctDraws_rat : DistinctDraws ℚ := by
  intro j k _ _ _ _ h
  have hcast : (j : ℚ) = k := by linarith
  exact_mod_cast hcast

theorem setUp_sameWorkload_iff_twentyfive :
    ∃ P : Process ℚ, (Process.start ℚ).run [.setUp .obj 25 id] = .ok P ∧
      SameWorkload 1000 .obj (.ptr true) id id (.start ℚ) P := by
  obtain ⟨P, hP, -, hseed⟩ := (Process.start ℚ).setUp_succeeds id .obj (n := 25) (by decide)
  have hrun : (Process.start ℚ).run [.setUp .obj 25 id] = .ok P := by
    simp only [Process.run, List.foldlM_cons, List.foldlM_nil, Process.perform, hP, ok_bind]
    rfl
  refine ⟨P, hrun, (setUp_sameWorkload_iff distinctDraws_rat [] [.setUp .obj 25 id] _ P rfl hrun 1000 .obj
    (.ptr true) id id).mpr ?_⟩
  rw [hseed]
  decide

/-- After nothing and after the set-up of one particle, the set-up of one particle draws from 10 and
from 18. -/
theorem setUp_workload_differs :
    ∃ P₁ P₂ : Process ℚ, (Process.start ℚ).run [] = .ok P₁ ∧
      (Process.start ℚ).run [.setUp .obj 1 id] = .ok P₂ ∧ ¬ SameWorkload 1 .obj .obj id id P₁ P₂ := by
  obtain ⟨P, hP, -, hseed⟩ := (Process.start ℚ).setUp_succeeds id .obj (n := 1) (by decide)
  have hrun : (Process.start ℚ).run [.setUp .obj 1 id] = .ok P := by
    simp only [Process.run, List.foldlM_cons, List.foldlM_nil, Process.perform, hP, ok_bind]
    rfl
  refine ⟨.start ℚ, P, rfl, hrun, fun h => ?_⟩
  rw [sameWorkload_iff distinctDraws_rat 1 .obj .obj id id (by decide) (by rw [hseed]; decide), hseed] at h
  exact absurd h (by decide)

end BenchmarkLibs
