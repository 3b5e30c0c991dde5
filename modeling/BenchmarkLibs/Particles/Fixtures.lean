import BenchmarkLibs.Base.Storage
import BenchmarkLibs.Particles.Particle
import BenchmarkLibs.Particles.Shuffle
import Mathlib.Algebra.Order.Field.Rat
import Mathlib.Tactic.Ring

/-!
# Object storage and pointer storage

The Google Benchmark fixtures keep particles in a vector, or behind `shared_ptr`s or `unique_ptr`s whose
order is shuffled. A run over pointers refines the run over objects of the same size and seed
(`ptrSetUp_refines`, `updateParticlesPtr_refines`), and two runs over objects of different sizes move alike
when their seeds are congruent modulo 100 (`objRun_coupled`).
-/

namespace BenchmarkLibs

open Fallible Storage

variable {F : Type} [Add F] [Sub F] [Mul F] [LT F] [DecidableLT F] [OfScientific F] [IntCast F]

/-! ### The fixtures -/

/-- `ParticlesObjVectorFixture<Part>::SetUp`, with `st.range_x()` particles. -/
def objSetUp (F : Type) [Add F] [Mul F] [OfScientific F] [IntCast F] (BufSize n : Nat) (randSeed : Int) :
    Except Fault (List (TParticle F BufSize) × Int) :=
  forEach TParticle.generate (List.replicate n (.zero F BufSize)) randSeed

structure PtrVector (F : Type) (BufSize : Nat) where
  particles : List (Option Nat)
  heap : List (TParticle F BufSize)

/-- The three loops of a pointer fixture's set-up: make the objects, rearrange the pointers, generate. -/
def ptrSetUp (BufSize n : Nat) (rearrange : List (Option Nat) → Except Fault (List (Option Nat)))
    (heap : List (TParticle F BufSize)) (randSeed : Int) : Except Fault (PtrVector F BufSize × Int) := do
  let (particles, heap) := makeEach (.zero F BufSize) (List.replicate n none) heap
  let particles ← rearrange particles
  let (heap, randSeed) ← forEachPtr TParticle.generate particles heap randSeed
  .ok (⟨particles, heap⟩, randSeed)

/-- `ParticlesPtrVectorFixture<Part>::SetUp`, its objects made by `std::make_shared`. -/
def sharedPtrSetUp (BufSize n : Nat) (rand : Nat → Nat) (heap : List (TParticle F BufSize)) (randSeed : Int) :
    Except Fault (PtrVector F BufSize × Int) :=
  ptrSetUp BufSize n (doRandomizeAddresses rand) heap randSeed

/-- `ParticlesUniquePtrVectorFixture<Part>::SetUp`, its objects made by `std::make_unique`. -/
def uniquePtrSetUp (BufSize n : Nat) (rand : Nat → Nat) (heap : List (TParticle F BufSize)) (randSeed : Int) :
    Except Fault (PtrVector F BufSize × Int) :=
  ptrSetUp BufSize n (doRandomizeAddresses rand) heap randSeed

/-- `UpdateParticlesObj`, for any number of updates and time step. -/
def updateParticlesObj {BufSize : Nat} (updates : Nat) (dt : F) (s : List (TParticle F BufSize) × Int) :
    Except Fault (List (TParticle F BufSize) × Int) :=
  (List.range updates).foldlM (fun s _ => forEach (TParticle.update dt) s.1 s.2) s

def updateParticlesPtr {BufSize : Nat} (updates : Nat) (dt : F) (s : PtrVector F BufSize × Int) :
    Except Fault (PtrVector F BufSize × Int) :=
  (List.range updates).foldlM (fun s _ => do
    let (heap, randSeed) ← forEachPtr (TParticle.update dt) s.1.particles s.1.heap s.2
    .ok (⟨s.1.particles, heap⟩, randSeed)) s

/-! ### Pointers refine objects -/

/-- The `n` pointers reach the objects, each its own, and the seeds are equal. -/
structure Mirrors {BufSize : Nat} (n : Nat) (obj : List (TParticle F BufSize) × Int)
    (ptr : PtrVector F BufSize × Int) : Prop where
  length : ptr.1.particles.length = n
  reaches : Reaches obj.1 ptr.1.particles ptr.1.heap
  randSeed : obj.2 = ptr.2

omit [Sub F] [LT F] [DecidableLT F] in
/-- A set-up that rearranges the pointers in some order generates the objects that the vector has. -/
theorem ptrSetUp_refines {BufSize n : Nat}
    {rearrange : List (Option Nat) → Except Fault (List (Option Nat))}
    (hrearrange : ∀ pointers, pointers.length = n → Succeeds (rearrange pointers) (·.Perm pointers))
    (heap : List (TParticle F BufSize)) (randSeed : Int) :
    Refines (Mirrors n) (objSetUp F BufSize n randSeed) (ptrSetUp BufSize n rearrange heap randSeed) := by
  have hmade := makeEach_eq (.zero F BufSize) (List.replicate n none) heap
  have hlen : (makeEach (.zero F BufSize) (List.replicate n none) heap).1.length = n := by
    rw [hmade, List.length_map, List.length_range', List.length_replicate]
  obtain ⟨pointers, hpointers, hperm⟩ := hrearrange _ hlen
  have hreaches := reaches_makeEach (.zero F BufSize) (List.replicate n none) heap hperm
  rw [List.length_replicate] at hreaches
  simp only [ptrSetUp, hpointers, ok_bind]
  have hpass := forEachPtr_refines TParticle.generate hreaches randSeed
  exact hpass.map fun a b hab => ⟨hperm.length_eq.trans hlen, hab.1, hab.2⟩

theorem updateParticlesPtr_refines {BufSize n : Nat} (updates : Nat) (dt : F)
    {obj : List (TParticle F BufSize) × Int} {ptr : PtrVector F BufSize × Int} (h : Mirrors n obj ptr) :
    Refines (Mirrors n) (updateParticlesObj updates dt obj) (updateParticlesPtr updates dt ptr) := by
  refine Refines.foldlM (fun _ obj ptr h => ?_) (List.range updates) obj ptr h
  have hpass := forEachPtr_refines (TParticle.update dt) h.reaches obj.2
  rw [h.randSeed] at hpass ⊢
  exact hpass.map fun a b hab => ⟨h.length, hab.1, hab.2⟩

/-! ### Particles that move alike -/

/-- Two particles, with buffers of any two sizes, that differ at most in the part of the longer buffer that
the shorter one does not have. -/
structure SameMotion {A B : Nat} (p : TParticle F A) (q : TParticle F B) : Prop where
  pos : p.pos = q.pos
  acc : p.acc = q.acc
  vel : p.vel = q.vel
  col : p.col = q.col
  rot : p.rot = q.rot
  time : p.time = q.time
  buf : ∀ i (hA : i < A) (hB : i < B), p.buf[i] = q.buf[i]

/-- Two seeds, the first at `s` and the second at `t` in the beginning, that draw the same values and have
advanced by the same amount. -/
structure InStep (s t a b : Int) : Prop where
  nonneg_left : 0 ≤ a
  nonneg_right : 0 ≤ b
  congr : a % 100 = b % 100
  advanced : a - s = b - t

section Motion

variable {A B : Nat} {p : TParticle F A} {q : TParticle F B} {s t a b : Int}

theorem InStep.add (h : InStep s t a b) {k : Int} (hk : 0 ≤ k) : InStep s t (a + k) (b + k) := by
  obtain ⟨hleft, hright, hcongr, hadvanced⟩ := h
  exact ⟨by omega, by omega, by omega, by omega⟩

omit [Sub F] [LT F] [DecidableLT F] in
theorem SameMotion.generated (h : SameMotion p q) (hseed : InStep s t a b) :
    SameMotion (p.generated a) (q.generated b) := by
  have hdraw : ∀ k : Int, 0 ≤ k → randValue F (a + k) = randValue F (b + k) :=
    fun k hk => randValue_congr (hseed.add hk).nonneg_left (hseed.add hk).nonneg_right (hseed.add hk).congr
  refine ⟨rfl, ?_, ?_, h.col, rfl, ?_, h.buf⟩
  · simp only [TParticle.generated, hdraw 0 (by decide), hdraw 1 (by decide), hdraw 2 (by decide),
      hdraw 3 (by decide)]
  · simp only [TParticle.generated, hdraw 4 (by decide), hdraw 5 (by decide), hdraw 6 (by decide)]
  · simp only [TParticle.generated, hdraw 7 (by decide)]

omit [LT F] [DecidableLT F] [IntCast F] in
theorem SameMotion.advance (h : SameMotion p q) (dt : F) : SameMotion (p.advance dt) (q.advance dt) := by
  obtain ⟨hpos, hacc, hvel, -, hrot, htime, -⟩ := h
  constructor
  case buf =>
    intro i hA hB
    simp only [TParticle.advance, Vector.getElem_ofFn, hpos, hacc, hvel]
  all_goals simp only [TParticle.advance, hpos, hacc, hvel, hrot, htime]

omit [Sub F] [LT F] [DecidableLT F] in
theorem generate_coupled (h : SameMotion p q) (hseed : InStep s t a b) :
    Coupled .intOverflow (fun x y => SameMotion x.1 y.1 ∧ InStep s t x.2 y.2) (p.generate a) (q.generate b) := by
  intro hp hq
  rw [TParticle.generate_eq] at hp hq ⊢
  rw [TParticle.generate_eq]
  split_ifs at hp hq ⊢
  · exact ⟨_, _, rfl, rfl, h.generated hseed, hseed.add (by decide)⟩
  · exact absurd rfl hq
  · exact absurd rfl hp
  · exact absurd rfl hp

/-- The test of the time left comes out alike, so both particles are regenerated or neither is. -/
theorem update_coupled (dt : F) (h : SameMotion p q) (hseed : InStep s t a b) :
    Coupled .intOverflow (fun x y => SameMotion x.1 y.1 ∧ InStep s t x.2 y.2)
      (p.update dt a) (q.update dt b) := by
  have hadvance := h.advance dt
  simp only [TParticle.update, hadvance.time]
  split
  · exact generate_coupled hadvance hseed
  · exact .ok ⟨hadvance, hseed⟩

end Motion

/-! ### Whole runs -/

def objRun (BufSize n updates : Nat) (dt : F) (randSeed : Int) :
    Except Fault (List (TParticle F BufSize) × Int) := do
  let s ← objSetUp F BufSize n randSeed
  updateParticlesObj updates dt s

def ptrRun {BufSize : Nat} (setUp : Int → Except Fault (PtrVector F BufSize × Int)) (updates : Nat) (dt : F)
    (randSeed : Int) : Except Fault (PtrVector F BufSize × Int) := do
  let s ← setUp randSeed
  updateParticlesPtr updates dt s

theorem objRun_coupled (A B n updates : Nat) (dt : F) {s t : Int} (hseed : InStep s t s t) :
    Coupled .intOverflow (fun x y => List.Forall₂ SameMotion x.1 y.1 ∧ InStep s t x.2 y.2)
      (objRun A n updates dt s) (objRun B n updates dt t) := by
  have hzero : SameMotion (TParticle.zero F A) (TParticle.zero F B) :=
    ⟨rfl, rfl, rfl, rfl, rfl, rfl, fun i hA hB => by simp [TParticle.zero]⟩
  have hzeros : List.Forall₂ SameMotion (List.replicate n (TParticle.zero F A))
      (List.replicate n (TParticle.zero F B)) := by
    induction n with
    | zero => exact .nil
    | succ n ih => exact .cons hzero ih
  refine (forEach_coupled (fun _ _ _ _ => generate_coupled) hzeros hseed).bind fun x y hxy => ?_
  exact Coupled.foldlM (fun _ _ _ h => forEach_coupled (fun _ _ _ _ => update_coupled dt) h.1 h.2)
    (List.range updates) x y hxy

theorem ptrRun_refines {BufSize n : Nat} {rearrange : List (Option Nat) → Except Fault (List (Option Nat))}
    (hrearrange : ∀ pointers, pointers.length = n → Succeeds (rearrange pointers) (·.Perm pointers))
    (updates : Nat) (dt : F) (heap : List (TParticle F BufSize)) (randSeed : Int) :
    Refines (Mirrors n) (objRun BufSize n updates dt randSeed)
      (ptrRun (ptrSetUp BufSize n rearrange heap) updates dt randSeed) :=
  (ptrSetUp_refines hrearrange heap randSeed).bind fun _ _ h => updateParticlesPtr_refines updates dt h

/-- Every particle of every pass draws at most eight values, so a run with room for that many does not
overflow. -/
theorem objRun_succeeds (BufSize n updates : Nat) (dt : F) {randSeed : Int}
    (hroom : randSeed + 8 * n * (updates + 1) ≤ intMax) :
    Succeeds (objRun BufSize n updates dt randSeed) fun s => s.1.length = n := by
  have hnonneg : (0 : Int) ≤ 8 * n := by omega
  have hsum : (8 : Int) * n * (updates + 1) = 8 * n * updates + 8 * n := by ring
  have hpasses : (0 : Int) ≤ 8 * n * updates := mul_nonneg hnonneg (Int.natCast_nonneg _)
  have hsetUp := forEach_succeeds id intMax (by decide)
    (fun (p : TParticle F BufSize) (seed : Int) hseed => TParticle.generate_succeeds p hseed)
    (List.replicate n (.zero F BufSize)) randSeed (by rw [List.length_replicate, id]; omega)
  rw [List.length_replicate] at hsetUp
  refine hsetUp.bind fun s hs => ?_
  have hloop := Succeeds.foldlM_range updates (fun s _ => forEach (TParticle.update dt) s.1 s.2) s
    (fun k s => s.1.length = n ∧ s.2 ≤ randSeed + 8 * n + 8 * n * k) ⟨hs.1, by simpa using hs.2⟩ (by
      intro k s hk hs
      have hstep : (8 : Int) * n * (k + 1) = 8 * n * k + 8 * n := by ring
      have hle : (8 : Int) * n * (k + 1) ≤ 8 * n * updates :=
        mul_le_mul_of_nonneg_left (by omega) hnonneg
      have hpass := forEach_succeeds id intMax (by decide)
        (fun (p : TParticle F BufSize) (seed : Int) hseed => TParticle.update_succeeds dt p hseed)
        s.1 s.2 (by rw [hs.1, id]; omega)
      refine hpass.imp fun s' hs' => ⟨hs'.1.trans hs.1, ?_⟩
      have := hs'.2
      rw [hs.1, id, id] at this
      push_cast
      omega)
  exact hloop.imp fun s hs => hs.1

/-- The runs end without a fault, with particles that have moved alike at every index below `n` and with
seeds that have advanced by the same amount. -/
def RunsAgree {A B : Nat} (n : Nat) (s t : Int) (obj : Except Fault (List (TParticle F A) × Int))
    (ptr : Except Fault (PtrVector F B × Int)) : Prop :=
  ∃ particles s' fixture t', obj = .ok (particles, s') ∧ ptr = .ok (fixture, t') ∧
    particles.length = n ∧ fixture.particles.length = n ∧
    (∀ i, i < n → ∃ p address q, particles[i]? = some p ∧ fixture.particles[i]? = some (some address) ∧
      fixture.heap[address]? = some q ∧ SameMotion p q) ∧
    s' - s = t' - t

private theorem runsAgree_of_refines (A : Nat) {B n updates : Nat} (dt : F) {s t : Int} (hseed : InStep s t s t)
    {ptr : Except Fault (PtrVector F B × Int)} (hptr : Refines (Mirrors n) (objRun B n updates dt t) ptr)
    (hobj_ok : objRun A n updates dt s ≠ .error .intOverflow) (hptr_ok : ptr ≠ .error .intOverflow) :
    RunsAgree n s t (objRun A n updates dt s) ptr := by
  obtain ⟨⟨particles, s'⟩, ⟨fixture, t'⟩, hobj, rfl, ⟨mirror, t''⟩, ⟨hmotion, hinstep⟩,
      ⟨hlen, hreaches, hsame⟩⟩ :=
    (objRun_coupled A B n updates dt hseed).refines hptr hobj_ok hptr_ok
  have hmirror : mirror.length = n := hreaches.pointsTo.length_eq.trans hlen
  have hparticles : particles.length = n := hmotion.length_eq.trans hmirror
  refine ⟨particles, s', fixture, t', hobj, rfl, hparticles, hlen, fun i hi => ?_, ?_⟩
  · have hi' : i < mirror.length := hmirror.symm ▸ hi
    obtain ⟨address, haddress, hpointee⟩ := hreaches.pointsTo.pointee hi'
    have hip : i < particles.length := hparticles.symm ▸ hi
    exact ⟨_, address, _, List.getElem?_eq_getElem hip, haddress, hpointee, hmotion.get hip hi'⟩
  · have := hinstep.advanced
    simp only at hsame this
    omega

/-- Particles in a vector and particles behind shuffled pointers are the same simulation, whatever the
buffer sizes, the draws of `rand` and the number of passes, from seeds that are congruent modulo 100. -/
theorem objRun_agrees (A B n updates : Nat) (dt : F) (rand : Nat → Nat) (heap : List (TParticle F B))
    (s t : Int) (hs : 0 ≤ s) (ht : 0 ≤ t) (hst : s % 100 = t % 100) :
    (objRun A n updates dt s ≠ .error .intOverflow →
      ptrRun (sharedPtrSetUp B n rand heap) updates dt t ≠ .error .intOverflow →
      RunsAgree n s t (objRun A n updates dt s) (ptrRun (sharedPtrSetUp B n rand heap) updates dt t)) ∧
    (objRun A n updates dt s ≠ .error .intOverflow →
      ptrRun (uniquePtrSetUp B n rand heap) updates dt t ≠ .error .intOverflow →
      RunsAgree n s t (objRun A n updates dt s) (ptrRun (uniquePtrSetUp B n rand heap) updates dt t)) := by
  have hseed : InStep s t s t := ⟨hs, ht, hst, by omega⟩
  have hptr := ptrRun_refines (n := n) (fun pointers _ => doRandomizeAddresses_perm rand pointers) updates dt heap t
  exact ⟨runsAgree_of_refines A dt hseed hptr, runsAgree_of_refines A dt hseed hptr⟩

theorem objRun_agrees_two :
    RunsAgree 2 10 110 (objRun 1 2 3 (1 / 60 : ℚ) 10)
      (ptrRun (sharedPtrSetUp 22 2 id ([] : List (TParticle ℚ 22))) 3 (1 / 60) 110) := by
  have hobj : objRun 1 2 3 (1 / 60 : ℚ) 10 ≠ .error .intOverflow :=
    (objRun_succeeds 1 2 3 (1 / 60) (by decide)).ne_error .intOverflow
  have hptr := (ptrRun_refines (n := 2) (fun pointers _ => doRandomizeAddresses_perm id pointers) 3 (1 / 60)
    ([] : List (TParticle ℚ 22)) 110).succeeds (objRun_succeeds 22 2 3 (1 / 60 : ℚ) (by decide))
  exact (objRun_agrees 1 22 2 3 (1 / 60 : ℚ) id [] 10 110 (by decide) (by decide) (by decide)).1 hobj
    (hptr.ne_error .intOverflow)

end BenchmarkLibs
