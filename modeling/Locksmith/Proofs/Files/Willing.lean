import Locksmith.Proofs.Data.SortedMap
import Locksmith.Files.Tree

namespace Locksmith

variable {φ α β : Type}

/-- How the files of some names are seen in the states of a file system. -/
structure FileView (φ : Type) where
  names : Set Bytes
  /-- The states in which nothing is refused. -/
  ready : φ → Prop
  /-- The content of a file, if there is one. -/
  content : φ → Bytes → Option Bytes

structure FileView.Shows (v : FileView φ) (t : φ) (files : Bytes → Option Bytes) : Prop where
  ready : v.ready t
  content : Set.EqOn (v.content t) files v.names

namespace FileSystem

/-- Files of these names are made, written, removed and renamed as one asks. Only the removal of
a file that is not there may be refused. -/
structure Willing (fs : FileSystem (StateM φ)) (v : FileView φ) : Prop where
  create {p t files} : p ∈ v.names → v.Shows t files →
    ∃ t', fs.create p t = (.ok (), t') ∧ v.Shows t' (Function.update files p (some []))
  append {p t files old} (s : Bytes) : p ∈ v.names → v.Shows t files → files p = some old →
    ∃ t', fs.append p s t = (.ok (), t') ∧
      v.Shows t' (Function.update files p (some (old ++ s)))
  close {p t files} : p ∈ v.names → v.Shows t files →
  ∃ t', fs.close p t = (.ok (), t') ∧ v.Shows t' files
  remove {p t files} : p ∈ v.names → v.Shows t files →
    ∃ out t', fs.remove p t = (out, t') ∧ v.Shows t' (Function.update files p none)
  rename {p q t files s} : p ∈ v.names → q ∈ v.names → p ≠ q → v.Shows t files →
  files p = some s →
    ∃ t', fs.rename p q t = (.ok (), t') ∧
      v.Shows t' (Function.update (Function.update files p none) q (some s))

def watch (x : StateM φ α) : StateM (φ × List φ) α :=
  fun w => ((x w.1).1, (x w.1).2, w.2 ++ [(x w.1).2])

def watched (fs : FileSystem (StateM φ)) : FileSystem (StateM (φ × List φ)) where
  read path := watch (fs.read path)
  create path := watch (fs.create path)
  append path content := watch (fs.append path content)
  close path := watch (fs.close path)
  remove path := watch (fs.remove path)
  rename path target := watch (fs.rename path target)
  makeFolders path := watch (fs.makeFolders path)
  isFolder path := watch (fs.isFolder path)
  names path := watch (fs.names path)

/-- To watch an action changes nothing. -/
def Follows (x : StateM (φ × List φ) α) (y : StateM φ α) : Prop :=
  ∀ w, ((x w).1, (x w).2.1) = y w.1

theorem Follows.watch (y : StateM φ α) : Follows (watch y) y := fun _ => rfl

theorem Follows.pure (a : α) : Follows (Pure.pure a : StateM (φ × List φ) α) (Pure.pure a) :=
  fun _ => rfl

theorem Follows.bind {x : StateM (φ × List φ) α} {y : StateM φ α}
    {f : α → StateM (φ × List φ) β} {g : α → StateM φ β}
    (hx : Follows x y) (hf : ∀ a, Follows (f a) (g a)) : Follows (x >>= f) (y >>= g) := by
  intro w
  change _ = g (y w.1).1 (y w.1).2
  rw [← hx w]
  exact hf (x w).1 (x w).2

/-- Where these files are seen, the action ends with a result and files that `Q` allows, and on
the way there it passes only states with files that `P` allows. -/
def Leads (v : FileView φ) (P : (Bytes → Option Bytes) → Prop) (x : StateM (φ × List φ) α)
    (files : Bytes → Option Bytes) (Q : α → (Bytes → Option Bytes) → Prop) : Prop :=
  ∀ w, v.Shows w.1 files →
    ∃ a t more files', x w = (a, t, w.2 ++ more) ∧ v.Shows t files' ∧ Q a files' ∧
    ∀ u ∈ more, ∃ f, v.Shows u f ∧ P f

namespace Leads

variable {v : FileView φ} {P : (Bytes → Option Bytes) → Prop} {files : Bytes → Option Bytes}
  {Q : α → (Bytes → Option Bytes) → Prop} {R : β → (Bytes → Option Bytes) → Prop}

theorem pure {a : α} (h : Q a files) : Leads v P (Pure.pure a) files Q := by
  intro w hw
  exact ⟨a, w.1, [], files, by rw [List.append_nil]; rfl, hw, h, List.forall_mem_nil _⟩

theorem bind {x : StateM (φ × List φ) α} {f : α → StateM (φ × List φ) β}
    (hx : Leads v P x files Q) (hf : ∀ a files', Q a files' → Leads v P (f a) files' R) :
    Leads v P (x >>= f) files R := by
  intro w hw
  obtain ⟨a, t, more, files', hrun, ht, hQ, hmore⟩ := hx w hw
  obtain ⟨b, t', more', files'', hrun', ht', hR, hmore'⟩ := hf a files' hQ (t, w.2 ++ more) ht
  refine ⟨b, t', more ++ more', files'', ?_, ht', hR, List.forall_mem_append.2 ⟨hmore, hmore'⟩⟩
  rw [← List.append_assoc, ← hrun']
  change f (x w).1 (x w).2 = _
  rw [hrun]

theorem mono {P' : (Bytes → Option Bytes) → Prop} {x : StateM (φ × List φ) α}
    (h : Leads v P x files Q) (hP : ∀ f, P f → P' f) : Leads v P' x files Q := by
  intro w hw
  obtain ⟨a, t, more, files', hrun, ht, hQ, hmore⟩ := h w hw
  refine ⟨a, t, more, files', hrun, ht, hQ, fun u hu => ?_⟩
  obtain ⟨f, hf, hPf⟩ := hmore u hu
  exact ⟨f, hf, hP f hPf⟩

theorem of_watch {x : StateM φ α}
    (h : ∀ t, v.Shows t files → ∃ a t' files', x t = (a, t') ∧ v.Shows t' files' ∧
    P files' ∧ Q a files') : Leads v P (watch x) files Q := by
  intro w hw
  obtain ⟨a, t', files', hrun, ht', hP, hQ⟩ := h w.1 hw
  refine ⟨a, t', [t'], files', ?_, ht', hQ, List.forall_mem_singleton.2 ⟨files', ht', hP⟩⟩
  rw [watch, hrun]

end Leads

namespace Willing

variable {fs : FileSystem (StateM φ)} {v : FileView φ} {P : (Bytes → Option Bytes) → Prop}
  {p q : Bytes} {files : Bytes → Option Bytes}

theorem leads_create (hfs : fs.Willing v) (hp : p ∈ v.names)
    (hP : P (Function.update files p (some []))) :
    Leads v P (fs.watched.create p) files fun out after =>
      out = .ok () ∧ after = Function.update files p (some []) := by
  apply Leads.of_watch
  intro t ht
  obtain ⟨t', hrun, ht'⟩ := hfs.create hp ht
  exact ⟨_, t', _, hrun, ht', hP, rfl, rfl⟩

theorem leads_append (hfs : fs.Willing v) (hp : p ∈ v.names) {old : Bytes}
    (hold : files p = some old) (s : Bytes)
    (hP : P (Function.update files p (some (old ++ s)))) :
    Leads v P (fs.watched.append p s) files fun out after =>
      out = .ok () ∧ after = Function.update files p (some (old ++ s)) := by
  apply Leads.of_watch
  intro t ht
  obtain ⟨t', hrun, ht'⟩ := hfs.append s hp ht hold
  exact ⟨_, t', _, hrun, ht', hP, rfl, rfl⟩

theorem leads_close (hfs : fs.Willing v) (hp : p ∈ v.names) (hP : P files) :
    Leads v P (fs.watched.close p) files fun out after => out = .ok () ∧ after = files := by
  apply Leads.of_watch
  intro t ht
  obtain ⟨t', hrun, ht'⟩ := hfs.close hp ht
  exact ⟨_, t', _, hrun, ht', hP, rfl, rfl⟩

theorem leads_remove (hfs : fs.Willing v) (hp : p ∈ v.names)
    (hP : P (Function.update files p none)) :
    Leads v P (fs.watched.remove p) files fun _ after =>
      after = Function.update files p none := by
  apply Leads.of_watch
  intro t ht
  obtain ⟨out, t', hrun, ht'⟩ := hfs.remove hp ht
  exact ⟨out, t', _, hrun, ht', hP, rfl⟩

theorem leads_rename (hfs : fs.Willing v) (hp : p ∈ v.names) (hq : q ∈ v.names) (hpq : p ≠ q)
    {s : Bytes} (hs : files p = some s)
    (hP : P (Function.update (Function.update files p none) q (some s))) :
    Leads v P (fs.watched.rename p q) files fun out after =>
      out = .ok () ∧ after = Function.update (Function.update files p none) q (some s) := by
  apply Leads.of_watch
  intro t ht
  obtain ⟨t', hrun, ht'⟩ := hfs.rename hp hq hpq ht hs
  exact ⟨_, t', _, hrun, ht', hP, rfl, rfl⟩

end Willing
end FileSystem

def FileNode.content? : FileNode → Option Bytes
  | file s => some s
  | folder => none

namespace FileTree

variable {t : FileTree} {p q : Bytes} {files : Bytes → Option Bytes}

/-- The files of a tree in which there are no folders. -/
def flat : FileView FileTree where
  names := {p | p ≠ [] ∧ Path.parts p = [p]}
  ready t := ∀ k n, t.nodes.get? k = some n → ∃ p s, k = [p] ∧ n = .file s
  content t p := (t.nodes.get? [p]).bind FileNode.content?

theorem obstacle_ancestors_singleton (t : FileTree) (p : Bytes) :
    t.obstacle (ancestors [p]) = none := rfl

theorem find_flat (t : FileTree) (hp : p ∈ flat.names) :
    t.find p = (t.nodes.get? [p]).elim (.error .notFound) .ok := by
  have hne : p.isEmpty = false := List.isEmpty_eq_false_iff.2 hp.1
  simp only [find, hp.2, hne, obstacle_ancestors_singleton, node?, List.isEmpty_cons,
    Bool.false_eq_true, if_false]
  cases t.nodes.get? [p] with
  | none => rfl
  | some n => rfl

/-- The file that stands at a name. -/
theorem flat_content_eq_some (h : flat.ready t) {s : Bytes} :
    flat.content t p = some s ↔ t.nodes.get? [p] = some (.file s) := by
  change (t.nodes.get? [p]).bind FileNode.content? = some s ↔ _
  cases hget : t.nodes.get? [p] with
  | none => simp
  | some n =>
    obtain ⟨p', s', -, rfl⟩ := h [p] n hget
    simp [FileNode.content?]

theorem flat_content_eq_none (h : flat.ready t) :
    flat.content t p = none ↔ t.nodes.get? [p] = none := by
  change (t.nodes.get? [p]).bind FileNode.content? = none ↔ _
  cases hget : t.nodes.get? [p] with
  | none => simp
  | some n =>
    obtain ⟨p', s', -, rfl⟩ := h [p] n hget
    simp [FileNode.content?]

/-- The tree after a change of one file. -/
theorem shows_of_get? (h : flat.Shows t files) {t' : FileTree} {value : Option Bytes}
    (hget : ∀ k, t'.nodes.get? k = if k = [p] then value.map .file else t.nodes.get? k) :
    flat.Shows t' (Function.update files p value) := by
  constructor
  · intro k n hk
    rw [hget] at hk
    split at hk
    · rename_i hkp
      obtain ⟨s, -, rfl⟩ := Option.map_eq_some_iff.1 hk
      exact ⟨p, s, hkp, rfl⟩
    · exact h.ready k n hk
  · intro q hq
    change (t'.nodes.get? [q]).bind FileNode.content? = _
    rw [hget]
    by_cases hqp : q = p
    · subst hqp
      rw [if_pos rfl, Function.update_self]
      cases value with
      | none => rfl
      | some s => rfl
    · rw [if_neg (by simpa using hqp), Function.update_of_ne hqp, ← h.content hq]
      rfl

theorem shows_put (h : flat.Shows t files) (p s : Bytes) :
    flat.Shows (t.put [p] (.file s)) (Function.update files p (some s)) := by
  apply shows_of_get? h
  intro k
  split
  · rename_i hk
    rw [hk]
    exact SortedMap.get?_insert_self _ _ _
  · rename_i hk
    exact SortedMap.get?_insert_of_ne _ _ hk

theorem shows_erase (h : flat.Shows t files) (p : Bytes) :
    flat.Shows ⟨t.nodes.erase [p]⟩ (Function.update files p none) := by
  apply shows_of_get? h
  intro k
  split
  · rename_i hk
    rw [hk]
    exact SortedMap.get?_erase_self _ _
  · rename_i hk
    exact SortedMap.get?_erase_of_ne _ hk

theorem write_flat (h : flat.ready t) (hp : p ∈ flat.names) (s : Bytes) :
    t.write p s = .ok (t.put [p] (.file s)) := by
  have hne : p.isEmpty = false := List.isEmpty_eq_false_iff.2 hp.1
  simp only [write, hp.2, hne, obstacle_ancestors_singleton, node?, List.isEmpty_cons,
    Bool.false_eq_true, if_false]
  cases hget : t.nodes.get? [p] with
  | none => rfl
  | some n =>
    obtain ⟨p', s', -, rfl⟩ := h [p] n hget
    rfl

theorem append_flat (hp : p ∈ flat.names) {old : Bytes}
    (hold : t.nodes.get? [p] = some (.file old)) (s : Bytes) :
    t.append p s = .ok (t.put [p] (.file (old ++ s))) := by
  rw [append, find_flat t hp, hold, hp.2]
  rfl

/-- Where there are no folders, nothing lies below a file. -/
theorem isBelow_flat (h : flat.ready t) {e : List Bytes × FileNode} (he : e ∈ t.nodes.toList)
    (p : Bytes) : isBelow [p] e.1 = false := by
  obtain ⟨q, s, hkey, -⟩ := h e.1 e.2 (SortedMap.mem_toList.1 he)
  rw [hkey]
  rfl

theorem rename_flat (h : flat.ready t) (hp : p ∈ flat.names) (hq : q ∈ flat.names) {s : Bytes}
    (hs : t.nodes.get? [p] = some (.file s)) :
    t.rename p q = .ok (put ⟨t.nodes.erase [p]⟩ [q] (.file s)) := by
  have hnone : (t.nodes.toList.filter fun e => isBelow [p] e.1) = [] :=
    List.filter_eq_nil_iff.2 fun e he => by simp [isBelow_flat h he p]
  have hkept : (t.nodes.filter fun k _ => k ≠ [p] && !isBelow [p] k) = t.nodes.erase [p] := by
    apply SortedMap.toList_inj
    apply List.filter_congr
    intro e he
    by_cases hkey : e.1 = [p]
    · simp [hkey]
    · have hcompare : compare [p] e.1 ≠ .eq := fun hc =>
        hkey (Std.LawfulEqOrd.eq_of_compare hc).symm
      simp [hkey, isBelow_flat h he p, hcompare]
  rw [rename, find_flat t hp, find_flat t hq, hs, hp.2, hq.2]
  cases hget : t.nodes.get? [q] with
  | none =>
    simp only [Option.elim_none, Option.elim_some, obstacle_ancestors_singleton, hnone, hkept,
      List.foldl_nil]
    rfl
  | some n =>
    obtain ⟨q', s', -, rfl⟩ := h [q] n hget
    simp only [Option.elim_some, obstacle_ancestors_singleton, hnone, hkept, List.foldl_nil]
    rfl

theorem system_willing : system.Willing flat where
  create {p t files} hp h := by
    refine ⟨t.put [p] (.file []), ?_, shows_put h p []⟩
    change change (·.write p []) t = _
    rw [change, write_flat h.ready hp]
  append {p t files old} s hp h hold := by
    have hget := (flat_content_eq_some h.ready).1 ((h.content hp).trans hold)
    refine ⟨t.put [p] (.file (old ++ s)), ?_, shows_put h p _⟩
    change change (·.append p s) t = _
    rw [change, append_flat hp hget]
  close {p t files} _ h := ⟨t, rfl, h⟩
  remove {p t files} hp h := by
    change ∃ out t', change (·.remove p) t = (out, t') ∧ _
    rw [change, remove, find_flat t hp, hp.2]
    cases hget : t.nodes.get? [p] with
    | none =>
      have hfiles : files p = none :=
        (h.content hp).symm.trans ((flat_content_eq_none h.ready).2 hget)
      refine ⟨_, t, rfl, ?_⟩
      rw [← hfiles, Function.update_eq_self]
      exact h
    | some n =>
      obtain ⟨p', s, -, rfl⟩ := h.ready [p] n hget
      exact ⟨_, ⟨t.nodes.erase [p]⟩, rfl, shows_erase h p⟩
  rename {p q t files s} hp hq _ h hs := by
    have hget := (flat_content_eq_some h.ready).1 ((h.content hp).trans hs)
    refine ⟨put ⟨t.nodes.erase [p]⟩ [q] (.file s), ?_, shows_put (shows_erase h p) q s⟩
    change change (·.rename p q) t = _
    rw [change, rename_flat h.ready hp hq hget]

end FileTree
end Locksmith
