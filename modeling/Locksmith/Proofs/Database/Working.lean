import Mathlib
import Locksmith.Database.LockSnapshot

namespace Locksmith
namespace Database
namespace Db

variable {ε α β : Type} {p : Store → Prop} {q : Except ε β → Store → Prop}
  {r : Except ε α → Store → Prop}

/-- Begun where the database satisfies `p`, the work ends where its outcome and the database
satisfy `q`. -/
def Ensures (p : Store → Prop) (x : Db ε α) (q : Except ε α → Store → Prop) : Prop :=
  ∀ σ : Session, p σ.store → q (x.run.run σ).1 (x.run.run σ).2.store

namespace Ensures

theorem pure {a : α} (h : ∀ s, p s → r (.ok a) s) : Ensures p (Pure.pure a : Db ε α) r :=
  fun _ hp => h _ hp

theorem throw {e : ε} (h : ∀ s, p s → r (.error e) s) :
    Ensures p (MonadExcept.throw e : Db ε α) r :=
  fun _ hp => h _ hp

theorem bind {x : Db ε α} {f : α → Db ε β} (hx : Ensures p x r)
    (hf : ∀ a, Ensures (r (.ok a)) (f a) q) (he : ∀ e s, r (.error e) s → q (.error e) s) :
    Ensures p (x >>= f) q := by
  intro σ hp
  have h := hx σ hp
  have hrun : (x >>= f).run.run σ =
      match x.run.run σ with
      | (.ok a, σ') => (f a).run.run σ'
      | (.error e, σ') => (.error e, σ') := by
    change (ExceptT.bindCont f (x.run.run σ).1).run (x.run.run σ).2 = _
    rcases x.run.run σ with ⟨_ | _, σ'⟩
    · rfl
    · rfl
  rw [hrun]
  rcases hout : x.run.run σ with ⟨e | a, σ'⟩
  · rw [hout] at h
    exact he e _ h
  · rw [hout] at h
    exact hf a σ' h

theorem imp {r' : Except ε α → Store → Prop} {p' : Store → Prop} {x : Db ε α}
    (hx : Ensures p x r) (hp : ∀ s, p' s → p s) (hr : ∀ out s, r out s → r' out s) :
    Ensures p' x r' :=
  fun σ h => hr _ _ (hx σ (hp _ h))

theorem of_forall {x : Db ε α} (h : ∀ s, p s → Ensures (· = s) x r) : Ensures p x r :=
  fun σ hp => h σ.store hp σ rfl

theorem store_bind {f : Store → Db ε β} (h : ∀ s, p s → Ensures (· = s) (f s) q) :
    Ensures p (Db.store >>= f) q :=
  fun σ hp => h σ.store hp σ rfl

theorem putStore {s' : Store} {r : Except ε Unit → Store → Prop}
    (h : ∀ s, p s → r (.ok ()) s') : Ensures p (Db.putStore s') r :=
  fun _ hp => h _ hp

theorem putStore_bind {s' : Store} {f : Unit → Db ε β} (h : Ensures (· = s') (f ()) q) :
    Ensures p (Db.putStore s' >>= f) q :=
  fun σ _ => h { σ with store := s' } rfl

theorem look {f : Store → Journaled α} (h : ∀ s a, p s → r (.ok a) s) :
    Ensures p (Db.look f) r :=
  fun _ hp => h _ _ hp

theorem look_bind {g : Store → Journaled α} {f : α → Db ε β} (h : ∀ a, Ensures p (f a) q) :
    Ensures p (Db.look g >>= f) q :=
  fun σ hp => h (g σ.store σ.journal).1 { σ with journal := (g σ.store σ.journal).2 } hp

theorem ite {c : Prop} [Decidable c] {x y : Db ε α} (hx : c → Ensures p x r)
    (hy : ¬c → Ensures p y r) : Ensures p (if c then x else y) r := by
  split
  · rename_i h
    exact hx h
  · rename_i h
    exact hy h

theorem step {f : Store → Except ε (α × Store)}
    (hok : ∀ s a s', p s → f s = .ok (a, s') → r (.ok a) s')
    (herror : ∀ s e, p s → f s = .error e → r (.error e) s) : Ensures p (Db.step f) r := by
  refine store_bind fun s hp => ?_
  rcases hf : f s with e | ⟨a, s'⟩
  · exact throw fun _ h => h ▸ herror s e hp hf
  · exact putStore_bind (pure fun _ h => h ▸ hok s a s' hp hf)

theorem change {f : Store → Except ε Store} {r : Except ε Unit → Store → Prop}
    (hok : ∀ s s', p s → f s = .ok s' → r (.ok ()) s')
    (herror : ∀ s e, p s → f s = .error e → r (.error e) s) : Ensures p (Db.change f) r := by
  refine store_bind fun s hp => ?_
  rcases hf : f s with e | s'
  · exact throw fun _ h => h ▸ herror s e hp hf
  · exact putStore fun _ _ => hok s s' hp hf

theorem forIn {γ : Type} {f : γ → Db ε Unit} (inv : List γ → Store → Prop)
    (fail : ε → Store → Prop) (l : List γ)
    (h : ∀ a rest, Ensures (inv (a :: rest)) (f a) fun out s =>
      match out with
      | .ok _ => inv rest s
      | .error e => fail e s) :
    Ensures (inv l) (do for a in l do f a) fun out s =>
      match out with
      | .ok _ => inv [] s
      | .error e => fail e s := by
  induction l with
  | nil => exact pure fun _ h => h
  | cons a rest ih =>
    rw [List.forIn_cons]
    simp only [bind_assoc, pure_bind]
    exact bind (h a rest) (fun _ => ih) fun _ _ he => he

end Ensures
end Db
end Database
end Locksmith
