import Orynx.Lib.Machine
import Orynx.Lib.Parties

/-! # Programs of atomic commands

A program issues one command after another, each with the answers to those before it. Alone it runs
to its end; in a pool, any thread may take the next command, and the surroundings may move too.

* `Prog`, `Prog.run`: a program, and what it does alone;
* `Discipline.Keeps`: which commands it may come to issue, given what it has learnt so far, as a
  condition on its text, with one rule for each way to build programs;
* `System.invariant`: what each allowed command keeps of the shared state holds in every run of the
  pool.
-/

namespace Lib

universe u v w x y z

/-- Commands of type `C`, where `R c` is the type of the answer to `c`. -/
inductive Prog (C : Type u) (R : C → Type v) (α : Type v) where
  | ret (a : α)
  | cmd (c : C) (k : R c → Prog C R α)

namespace Prog

variable {C : Type u} {R : C → Type v} {α β : Type v}

def bind : Prog C R α → (α → Prog C R β) → Prog C R β
  | ret a, f => f a
  | cmd c k, f => cmd c fun r => bind (k r) f

instance : Monad (Prog C R) where
  pure := ret
  bind := bind

def issue (c : C) : Prog C R (R c) := cmd c ret

variable {σ : Type w} (exec : (c : C) → σ → R c × σ)

/-- From the first command to the last, with nothing in between. -/
def run : Prog C R α → σ → α × σ
  | ret a, s => (a, s)
  | cmd c k, s => run (k (exec c s).1) (exec c s).2

@[simp] theorem run_pure (a : α) (s : σ) : run exec (pure a : Prog C R α) s = (a, s) := rfl

@[simp] theorem run_issue (c : C) (s : σ) : run exec (issue c) s = exec c s := rfl

@[simp] theorem run_bind (p : Prog C R α) (f : α → Prog C R β) (s : σ) :
    run exec (p >>= f) s = run exec (f (run exec p s).1) (run exec p s).2 := by
  induction p generalizing s with
  | ret a => rfl
  | cmd c k ih => exact ih _ _

end Prog

/-! ## Disciplines -/

/-- What a thread may do with what it has learnt, and what it can rely on of an answer. -/
structure Discipline (C : Type u) (R : C → Type v) (γ : Type x) where
  allows : γ → C → Prop
  expects : (c : C) → R c → Prop
  learn : γ → (c : C) → R c → γ

namespace Discipline

variable {C : Type u} {R : C → Type v} {γ : Type x} {α β : Type v} (D : Discipline C R γ)

/-- Whatever is answered that can be, only allowed commands are issued, and the end meets `Q`. -/
def Keeps : Prog C R α → γ → (γ → α → Prop) → Prop
  | .ret a, g, Q => Q g a
  | .cmd c k, g, Q => D.allows g c ∧ ∀ r, D.expects c r → Keeps (k r) (D.learn g c r) Q

variable {D} {g : γ} {Q : γ → α → Prop}

theorem keeps_issue {c : C} {Q : γ → R c → Prop} (hallowed : D.allows g c)
    (h : ∀ r, D.expects c r → Q (D.learn g c r) r) : D.Keeps (Prog.issue c : Prog C R (R c)) g Q :=
  ⟨hallowed, h⟩

theorem keeps_bind {p : Prog C R α} {f : α → Prog C R β} {Q : γ → β → Prop}
    (h : D.Keeps p g fun g a => D.Keeps (f a) g Q) : D.Keeps (p >>= f) g Q := by
  induction p generalizing g with
  | ret a => exact h
  | cmd c k ih => exact ⟨h.1, fun r hr => ih r (h.2 r hr)⟩

end Discipline

/-! ## Pools -/

/-- A program that has come as far as `rest`. -/
structure Thread (C : Type u) (R : C → Type v) (γ : Type x) (α : Type v) where
  known : γ
  rest : Prog C R α

structure Pool (σ : Type w) (C : Type u) (R : C → Type v) (γ : Type x) (α : Type v) where
  shared : σ
  threads : List (Thread C R γ α)

/-- A call comes in, a thread takes its next command, or something else happens. -/
inductive PoolAct (κ : Type y) (ε : Type z) where
  | call (c : κ)
  | step (i : Nat)
  | env (e : ε)

/-- The commands as they work on what is shared, the code of the calls with what is known at first,
and what may happen besides. A call that is not let in does not come in. -/
structure System (σ : Type w) (C : Type u) (R : C → Type v) (γ : Type x) (α : Type v) (κ : Type y)
    (ε : Type z) where
  Init : σ → Prop
  exec : (c : C) → σ → R c × σ
  enter : κ → σ → Option σ
  code : κ → Prog C R α
  start : κ → γ
  env : ε → σ → Option σ

namespace System

variable {σ : Type w} {C : Type u} {R : C → Type v} {α : Type v} {κ : Type y} {ε : Type z}
  {γ : Type x} (S : System σ C R γ α κ ε) (D : Discipline C R γ)

/-- The next command of a thread. -/
def take (pool : Pool σ C R γ α) (i : Nat) : Option (Pool σ C R γ α) :=
  match pool.threads[i]? with
  | some ⟨g, .cmd c k⟩ =>
    let answer := S.exec c pool.shared
    some { shared := answer.2, threads := pool.threads.set i ⟨D.learn g c answer.1, k answer.1⟩ }
  | _ => none

def next (pool : Pool σ C R γ α) : PoolAct κ ε → Option (Pool σ C R γ α)
  | .call c => (S.enter c pool.shared).map fun s =>
      { shared := s, threads := pool.threads ++ [⟨S.start c, S.code c⟩] }
  | .step i => S.take D pool i
  | .env e => (S.env e pool.shared).map fun s => { pool with shared := s }

def machine : Machine (Pool σ C R γ α) (PoolAct κ ε) where
  Init pool := S.Init pool.shared ∧ pool.threads = []
  next := S.next D

end System

/-- The condition on the command that is taken next, if one is. -/
def Pool.meets {σ : Type w} {C : Type u} {R : C → Type v} {α : Type v} {κ : Type y} {ε : Type z}
    {γ : Type x} (cond : σ → γ → C → Bool) (pool : Pool σ C R γ α) : PoolAct κ ε → Bool
  | .step i =>
    match pool.threads[i]? with
    | some ⟨g, .cmd c _⟩ => cond pool.shared g c
    | _ => true
  | _ => true

theorem Pool.meets_true {σ : Type w} {C : Type u} {R : C → Type v} {α : Type v} {κ : Type y}
    {ε : Type z} {γ : Type x} {pool : Pool σ C R γ α} {a : PoolAct κ ε} :
    pool.meets (fun _ _ _ => true) a = true := by
  cases a with
  | step i =>
    unfold Pool.meets
    dsimp only
    split <;> rfl
  | _ => rfl

namespace System

variable {σ : Type w} {C : Type u} {R : C → Type v} {α : Type v} {κ : Type y} {ε : Type z}
  {γ : Type x} {S : System σ C R γ α κ ε} {D : Discipline C R γ}

theorem next_step {pool pool' : Pool σ C R γ α} {i : Nat}
    (h : S.next D pool (.step i) = some pool') :
    ∃ g c k, pool.threads[i]? = some ⟨g, .cmd c k⟩ ∧
      pool' = { shared := (S.exec c pool.shared).2
                threads := pool.threads.set i
                  ⟨D.learn g c (S.exec c pool.shared).1, k (S.exec c pool.shared).1⟩ } := by
  change S.take D pool i = some pool' at h
  unfold take at h
  split at h
  · rename_i g c k hthread
    exact ⟨g, c, k, hthread, (Option.some.inj h).symm⟩
  · cases h

/-- What holds of the shared state, of what each thread knows about it and does with that, and of
what any two threads know. -/
structure Sound (D : Discipline C R γ) (Q : γ → α → Prop) (J : σ → Prop) (T : σ → γ → Prop)
    (A : γ → γ → Prop) (pool : Pool σ C R γ α) : Prop where
  shared : J pool.shared
  knows : ∀ t ∈ pool.threads, T pool.shared t.known
  keeps : ∀ t ∈ pool.threads, D.Keeps t.rest t.known Q
  apart : Parties.Apart (fun t t' => A t.known t'.known) pool.threads

/-- What `J`, `T` and `A` have to survive: calls, allowed commands under the condition, and all
else. -/
structure Preserves (S : System σ C R γ α κ ε) (D : Discipline C R γ) (Q : γ → α → Prop)
    (cond : σ → γ → C → Bool) (J : σ → Prop) (T : σ → γ → Prop) (A : γ → γ → Prop) : Prop where
  init : ∀ s, S.Init s → J s
  symm : ∀ g g', A g g' → A g' g
  code : ∀ c, D.Keeps (S.code c) (S.start c) Q
  call : ∀ c s s', J s → S.enter c s = some s' →
    J s' ∧ T s' (S.start c) ∧ ∀ g, T s g → T s' g ∧ A g (S.start c)
  exec : ∀ s g c, J s → T s g → D.allows g c → cond s g c = true →
    D.expects c (S.exec c s).1 ∧ J (S.exec c s).2 ∧
      T (S.exec c s).2 (D.learn g c (S.exec c s).1) ∧
      ∀ g', T s g' → A g g' → T (S.exec c s).2 g' ∧ A (D.learn g c (S.exec c s).1) g'
  env : ∀ e s s', J s → S.env e s = some s' → J s' ∧ ∀ g, T s g → T s' g

theorem invariant {Q : γ → α → Prop} {cond : σ → γ → C → Bool} {J : σ → Prop} {T : σ → γ → Prop}
    {A : γ → γ → Prop} (P : S.Preserves D Q cond J T A) :
    ∀ pool, (S.machine D).ReachableUnder (fun pool a => pool.meets cond a = true) pool →
      Sound D Q J T A pool := by
  refine Machine.invariant_under ?_ ?_
  · rintro ⟨shared, threads⟩ ⟨hshared, hnone⟩
    obtain rfl : threads = [] := hnone
    exact ⟨P.init _ hshared, fun t ht => (by cases ht), fun t ht => (by cases ht),
      Parties.apart_nil⟩
  · intro pool a pool' _ h hmeets hn
    cases a with
    | call c =>
      rcases Option.map_eq_some_iff.1 hn with ⟨s', henter, rfl⟩
      rcases P.call c _ _ h.shared henter with ⟨hJ, hstart, hothers⟩
      refine ⟨hJ, fun t ht => ?_, fun t ht => ?_, h.apart.concat fun t ht => ?_⟩
      · rcases List.mem_append.1 ht with ht | ht
        · exact (hothers _ (h.knows t ht)).1
        · rw [List.mem_singleton.1 ht]
          exact hstart
      · rcases List.mem_append.1 ht with ht | ht
        · exact h.keeps t ht
        · rw [List.mem_singleton.1 ht]
          exact P.code c
      · have hA := (hothers _ (h.knows t ht)).2
        exact ⟨hA, P.symm _ _ hA⟩
    | step i =>
      rcases next_step hn with ⟨g, c, k, hthread, rfl⟩
      have hmem := List.mem_of_getElem? hthread
      rcases h.keeps _ hmem with ⟨hallowed, hrest⟩
      have hcond : cond pool.shared g c = true := by
        simpa only [Pool.meets, hthread] using hmeets
      rcases P.exec _ g c h.shared (h.knows _ hmem) hallowed hcond with
        ⟨hexpected, hJ, hself, hothers⟩
      refine ⟨hJ, ?_, ?_, ?_⟩
      · -- every other thread is at a place of its own
        intro t ht
        rcases List.mem_iff_getElem?.1 ht with ⟨j, hj⟩
        by_cases hji : j = i
        · subst hji
          obtain rfl := Option.some.inj ((Parties.getElem?_set hthread _).symm.trans hj)
          exact hself
        · rw [List.getElem?_set_ne (Ne.symm hji)] at hj
          exact (hothers _ (h.knows t (List.mem_of_getElem? hj))
            (h.apart i j _ t (Ne.symm hji) hthread hj)).1
      · exact Parties.forall_set _ (hrest _ hexpected) h.keeps
      · refine h.apart.set hthread fun t ht hA _ => ?_
        have hA' := (hothers _ (h.knows t ht) hA).2
        exact ⟨hA', P.symm _ _ hA'⟩
    | env e =>
      rcases Option.map_eq_some_iff.1 hn with ⟨s', henv, rfl⟩
      rcases P.env e _ _ h.shared henv with ⟨hJ, hothers⟩
      exact ⟨hJ, fun t ht => hothers _ (h.knows t ht), h.keeps, h.apart⟩

end System

end Lib
