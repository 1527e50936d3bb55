import Locksmith.Proofs.Files.Willing

namespace Locksmith

variable {φ α β : Type}

namespace FileSystem

/-- Where these files are seen, the action ends with a result and files that `Q` allows. -/
def Yields (v : FileView φ) (x : StateM φ α) (files : Bytes → Option Bytes)
    (Q : α → (Bytes → Option Bytes) → Prop) : Prop :=
  ∀ t, v.Shows t files → ∃ after, v.Shows (x t).2 after ∧ Q (x t).1 after

namespace Yields

variable {v : FileView φ} {files : Bytes → Option Bytes}
  {Q Q' : α → (Bytes → Option Bytes) → Prop} {R : β → (Bytes → Option Bytes) → Prop}

theorem pure {a : α} (h : Q a files) : Yields v (Pure.pure a) files Q := fun _ ht =>
  ⟨files, ht, h⟩

theorem bind {x : StateM φ α} {f : α → StateM φ β} (hx : Yields v x files Q)
    (hf : ∀ a after, Q a after → Yields v (f a) after R) : Yields v (x >>= f) files R := by
  intro t ht
  obtain ⟨after, hafter, hQ⟩ := hx t ht
  exact hf (x t).1 after hQ (x t).2 hafter

theorem imp {x : StateM φ α} (h : Yields v x files Q) (hQ : ∀ a after, Q a after → Q' a after) :
    Yields v x files Q' := by
  intro t ht
  obtain ⟨after, hafter, hout⟩ := h t ht
  exact ⟨after, hafter, hQ _ _ hout⟩

end Yields

/-- A request is refused and changes nothing, or it is granted and done. -/
def Answers (v : FileView φ) (x : StateM φ (Except FileError Unit))
    (files : Bytes → Option Bytes) (done : (Bytes → Option Bytes) → Prop) : Prop :=
  Yields v x files fun out after =>
    (∃ e, out = .error e) ∧ after = files ∨ out = .ok () ∧ done after

/-- Files of these names are made, written, removed and renamed as one asks, or not at all. -/
structure Honest (fs : FileSystem (StateM φ)) (v : FileView φ) : Prop where
  create {p files} : p ∈ v.names →
  Answers v (fs.create p) files (· = Function.update files p (some []))
  append {p files} (s : Bytes) : p ∈ v.names →
    Answers v (fs.append p s) files fun after =>
      ∃ old, files p = some old ∧ after = Function.update files p (some (old ++ s))
  close {p files} : p ∈ v.names → Answers v (fs.close p) files (· = files)
  remove {p files} : p ∈ v.names →
  Answers v (fs.remove p) files (· = Function.update files p none)
  rename {p q files} : p ∈ v.names → q ∈ v.names →
    Answers v (fs.rename p q) files fun after =>
      ∃ s, files p = some s ∧ after = Function.update (Function.update files p none) q (some s)

/-- Only this file may be different. -/
def Spares (p : Bytes) (files after : Bytes → Option Bytes) : Prop :=
  ∀ q, q ≠ p → after q = files q

theorem Spares.refl (p : Bytes) (files : Bytes → Option Bytes) : Spares p files files :=
  fun _ _ => rfl

theorem Spares.trans {p : Bytes} {files mid after : Bytes → Option Bytes}
    (h : Spares p files mid) (h' : Spares p mid after) : Spares p files after := fun q hq =>
      (h' q hq).trans (h q hq)

theorem Spares.update (p : Bytes) (files : Bytes → Option Bytes) (value : Option Bytes) :
    Spares p files (Function.update files p value) := fun _ hq => Function.update_of_ne hq _ _

namespace Honest

variable {fs : FileSystem (StateM φ)} {v : FileView φ} {p : Bytes}
  {files : Bytes → Option Bytes}

theorem yields_create (h : fs.Honest v) (hp : p ∈ v.names) :
    Yields v (fs.create p) files fun out after =>
      Spares p files after ∧ (out = .ok () → after p = some []) := by
  refine (h.create hp).imp ?_
  rintro _ _ (⟨⟨e, rfl⟩, rfl⟩ | ⟨rfl, rfl⟩)
  · exact ⟨.refl p _, fun hout => by cases hout⟩
  · exact ⟨.update p _ _, fun _ => Function.update_self _ _ _⟩

theorem yields_append (h : fs.Honest v) (hp : p ∈ v.names) {old : Bytes}
    (hold : files p = some old) (s : Bytes) :
    Yields v (fs.append p s) files fun out after =>
      Spares p files after ∧ (out = .ok () → after p = some (old ++ s)) := by
  refine (h.append s hp).imp ?_
  rintro _ _ (⟨⟨e, rfl⟩, rfl⟩ | ⟨rfl, old', hold', rfl⟩)
  · exact ⟨.refl p _, fun hout => by cases hout⟩
  · cases hold.symm.trans hold'
    exact ⟨.update p _ _, fun _ => Function.update_self _ _ _⟩

theorem yields_close (h : fs.Honest v) (hp : p ∈ v.names) :
    Yields v (fs.close p) files fun _ after => after = files :=
  (h.close hp).imp fun _ _ hout => hout.elim And.right And.right

theorem yields_remove (h : fs.Honest v) (hp : p ∈ v.names) :
    Yields v (fs.remove p) files fun _ after => Spares p files after := by
  refine (h.remove hp).imp ?_
  rintro _ _ (⟨-, rfl⟩ | ⟨-, rfl⟩)
  · exact .refl p _
  · exact .update p _ _

end Honest

def refuse (action : FileAction) (path : Bytes) (x : StateM φ (Except FileError α)) :
    StateM (φ × List Bool) (Except FileError α) := fun w =>
  match w.2 with
  | false :: signs => (.error ⟨action, path, .other "refused"⟩, w.1, signs)
  | signs => ((x w.1).1, (x w.1).2, signs.tail)

def refusing (fs : FileSystem (StateM φ)) : FileSystem (StateM (φ × List Bool)) where
  read path := refuse .read path (fs.read path)
  create path := refuse .open path (fs.create path)
  append path content := refuse .write path (fs.append path content)
  close path := refuse .close path (fs.close path)
  remove path := refuse .remove path (fs.remove path)
  rename path target := refuse (.rename target) path (fs.rename path target)
  makeFolders path := refuse .makeFolder path (fs.makeFolders path)
  isFolder path := refuse .look path (fs.isFolder path)
  names path := refuse .open path (fs.names path)

end FileSystem

def FileView.withSigns (v : FileView φ) : FileView (φ × List Bool) where
  names := v.names
  ready w := v.ready w.1
  content w := v.content w.1

namespace FileSystem

variable {v : FileView φ} {fs : FileSystem (StateM φ)} {files : Bytes → Option Bytes}

theorem Answers.refuse {x : StateM φ (Except FileError Unit)}
    {done : (Bytes → Option Bytes) → Prop} (h : Answers v x files done) (action : FileAction)
    (path : Bytes) :
    Answers v.withSigns (refuse action path x) files done := by
  rintro ⟨t, signs⟩ ⟨hready, hcontent⟩
  obtain ⟨after, hafter, hout⟩ := h t ⟨hready, hcontent⟩
  rcases signs with _ | ⟨_ | _, signs⟩
  · exact ⟨after, ⟨hafter.ready, hafter.content⟩, hout⟩
  · exact ⟨files, ⟨hready, hcontent⟩, .inl ⟨⟨_, rfl⟩, rfl⟩⟩
  · exact ⟨after, ⟨hafter.ready, hafter.content⟩, hout⟩

theorem Honest.refusing (h : fs.Honest v) : fs.refusing.Honest v.withSigns where
  create hp := (h.create hp).refuse _ _
  append s hp := (h.append s hp).refuse _ _
  close hp := (h.close hp).refuse _ _
  remove hp := (h.remove hp).refuse _ _
  rename hp hq := (h.rename hp hq).refuse _ _

end FileSystem

namespace FileTree

open FileSystem

variable {p q : Bytes} {files : Bytes → Option Bytes}

theorem answers_change {f : FileTree → Except FileError FileTree}
    {done : (Bytes → Option Bytes) → Prop}
    (h : ∀ t t', flat.Shows t files → f t = .ok t' →
      ∃ after, flat.Shows t' after ∧ done after) :
    Answers flat (change f) files done := by
  intro t ht
  rcases hf : f t with e | t'
  · refine ⟨files, ?_, .inl ⟨⟨e, ?_⟩, rfl⟩⟩
    · rw [change, hf]
      exact ht
    · rw [change, hf]
  · obtain ⟨after, hafter, hdone⟩ := h t t' ht hf
    refine ⟨after, ?_, .inr ⟨?_, hdone⟩⟩
    · rw [change, hf]
      exact hafter
    · rw [change, hf]

theorem system_honest : system.Honest flat where
  create {p files} hp := by
    refine answers_change fun t t' ht hrun => ?_
    rw [write_flat ht.ready hp] at hrun
    cases hrun
    exact ⟨_, shows_put ht p [], rfl⟩
  append {p files} s hp := by
    refine answers_change fun t t' ht hrun => ?_
    cases hold : files p with
    | none =>
      have hget := (flat_content_eq_none ht.ready).1 ((ht.content hp).trans hold)
      rw [append, find_flat t hp, hget] at hrun
      cases hrun
    | some old =>
      have hget := (flat_content_eq_some ht.ready).1 ((ht.content hp).trans hold)
      rw [append_flat hp hget] at hrun
      cases hrun
      exact ⟨_, shows_put ht p _, old, rfl, rfl⟩
  close _ _ ht := ⟨_, ht, .inr ⟨rfl, rfl⟩⟩
  remove {p files} hp := by
    refine answers_change fun t t' ht hrun => ?_
    cases hget : t.nodes.get? [p] with
    | none =>
      rw [remove, find_flat t hp, hget] at hrun
      cases hrun
    | some n =>
      obtain ⟨p', s, -, rfl⟩ := ht.ready [p] n hget
      rw [remove, find_flat t hp, hp.2, hget] at hrun
      cases hrun
      exact ⟨_, shows_erase ht p, rfl⟩
  rename {p q files} hp hq := by
    refine answers_change fun t t' ht hrun => ?_
    cases hs : files p with
    | none =>
      have hget := (flat_content_eq_none ht.ready).1 ((ht.content hp).trans hs)
      rw [rename, find_flat t hp, hget] at hrun
      cases hrun
    | some s =>
      have hget := (flat_content_eq_some ht.ready).1 ((ht.content hp).trans hs)
      rw [rename_flat ht.ready hp hq hget] at hrun
      cases hrun
      exact ⟨_, shows_put (shows_erase ht p) q s, s, rfl, rfl⟩

end FileTree
end Locksmith
