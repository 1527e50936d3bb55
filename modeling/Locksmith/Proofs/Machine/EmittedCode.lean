import Locksmith.Proofs.Machine.ThreadedCode

namespace Locksmith

open Decompile (blank)

theorem Opcode.not_jump_of_text {op : Opcode} (h : op.operand = .text) : op.isJump = false := by
  cases op with
  | jumpTrue | jumpFalse => cases h
  | _ => rfl

namespace Bytecode

/-- How many groups are open after some instructions that come after `depth` open ones. A mark
of 0 opens a group and a mark of 1 closes one; there are no other marks, and none closes what is
not open. -/
def openGroups (depth : Nat) : List Insn → Option Nat
  | [] => some depth
  | i :: rest =>
    if i.op ≠ .paren then openGroups depth rest
    else if i.arg = 0 then openGroups (depth + 1) rest
    else if i.arg = 1 ∧ 0 < depth then openGroups (depth - 1) rest
    else none

/-- Code in which everything is in its place: `insns`, and behind them the texts of `pool`. -/
structure WellFormed (code : Bytes) (insns : List Insn) (pool : List Bytes) : Prop where
  layout : code = insns.flatMap encodeInsn ++ pool.flatMap (· ++ [0])
  length : code.length = insnWidth * insns.length + (pool.map (·.length + 1)).sum
  /-- The instructions can be read. -/
  read : instructions code = .ok insns
  /-- The last instruction ends the run, and no other does. -/
  ret : ∃ init arg, insns = init ++ [⟨.ret, arg⟩] ∧ ∀ i ∈ init, i.op ≠ .ret
  /-- Jumps lead ahead, to an instruction. -/
  jumps : ∀ (k : Nat) (i : Insn), insns[k]? = some i → i.op.isJump = true →
    ∃ t, i.arg.toInt = (insnWidth * t : Nat) ∧ k < t ∧ t ≤ insns.length - 1
  /-- Texts are named by the offset at which they begin. -/
  texts : ∀ i ∈ insns, i.op.operand = .text → ∃ k < pool.length,
    i.arg.toInt = (insnWidth * insns.length + ((pool.take k).map (·.length + 1)).sum : Nat)
  /-- Whatever reads the text register comes right after the instruction that loads it, and from
  nowhere else. -/
  loads : ∀ (k : Nat) (i : Insn), insns[k]? = some i → i.op.readsText = true →
    (∃ arg, 0 < k ∧ insns[k - 1]? = some ⟨.loadText, arg⟩) ∧
      ∀ j ∈ insns, j.op.isJump = true → j.arg.toInt ≠ (insnWidth * k : Nat)
  groups : openGroups 0 insns = some 0
  distinct : pool.Nodup

theorem openGroups_cons {i : Insn} (h : i.op ≠ .paren) (depth : Nat) (l : List Insn) :
    openGroups depth (i :: l) = openGroups depth l := by
  rw [openGroups, if_pos h]

theorem openGroups_open (depth : Nat) (l : List Insn) :
    openGroups depth (⟨.paren, 0⟩ :: l) = openGroups (depth + 1) l := by
  rw [openGroups, if_neg (by simp), if_pos rfl]

theorem openGroups_close (depth : Nat) (l : List Insn) :
    openGroups (depth + 1) (⟨.paren, 1⟩ :: l) = openGroups depth l := by
  rw [openGroups, if_neg (by simp), if_neg (by decide), if_pos ⟨rfl, Nat.succ_pos depth⟩]
  rfl

theorem openGroups_append (depth : Nat) (l l' : List Insn) :
    openGroups depth (l ++ l') = (openGroups depth l).bind (openGroups · l') := by
  induction l generalizing depth with
  | nil => rfl
  | cons i l ih =>
    simp only [List.cons_append, openGroups]
    split_ifs with hi h0 h1
    · exact ih depth
    · exact ih (depth + 1)
    · exact ih (depth - 1)
    · rfl

/-- Only group marks count. -/
theorem openGroups_map {f : Insn → Insn} (hop : ∀ i, (f i).op = i.op)
    (hf : ∀ i, i.op = .paren → f i = i) (depth : Nat) (l : List Insn) :
    openGroups depth (l.map f) = openGroups depth l := by
  induction l generalizing depth with
  | nil => rfl
  | cons i l ih =>
    rw [List.map_cons]
    by_cases hi : i.op = .paren
    · rw [hf i hi]
      simp only [openGroups, ih]
    · rw [openGroups_cons hi, openGroups_cons (by rwa [hop]), ih]

end Bytecode

namespace Assembly

open Bytecode (openGroups)

variable {a b : Assembly} {code front tail xs ys : List Insn} {i j : Insn}
  {pool pool' : List Bytes}

theorem openGroups_solid (depth : Nat) (code : List Insn) :
    openGroups depth (solid code) = openGroups depth code := by
  induction code generalizing depth with
  | nil => rfl
  | cons i code ih =>
    by_cases hi : i.op = .label
    · rw [solid, List.filter_cons_of_neg (by simpa using hi),
        Bytecode.openGroups_cons (by simp [hi])]
      exact ih depth
    · rw [solid, List.filter_cons_of_pos (by simpa using hi)]
      simp only [openGroups, ← solid.eq_def, ih]

theorem Loaded.append (hx : Loaded xs) (hy : Loaded ys) : Loaded (xs ++ ys) := by
  rw [Loaded, List.map_append, ← List.cons_append, List.isChain_append]
  refine ⟨hx, hy.tail, fun op _ op' hop' hread => ?_⟩
  cases ys with
  | nil => cases hop'
  | cons j ys =>
    cases hop'
    cases (List.isChain_cons_cons.1 hy).1 hread

theorem Loaded.before (h : Loaded (xs ++ i :: ys)) (hi : i.op.readsText = true) :
    ∃ xs' arg, xs = xs' ++ [⟨.loadText, arg⟩] := by
  rcases List.eq_nil_or_concat' xs with rfl | ⟨xs', ⟨op, arg⟩, rfl⟩
  · cases (List.isChain_cons_cons.1 h).1 hi
  · rw [Loaded, List.append_assoc, List.map_append, ← List.cons_append] at h
    have hop : op = .loadText := (List.isChain_append_cons_cons.1 h).2.1 hi
    exact ⟨xs', arg, by rw [hop]⟩

/-- What is true of assembly for a key, whatever stands around it. The pool is the one of the
whole program. -/
structure Written (pool : List Bytes) (code : List Insn) : Prop where
  ops : ∀ i ∈ code, i.op ≠ .ret ∧ (i.op ≠ .label → i.op.isExecutable = true)
  texts : ∀ i ∈ code, i.op.operand = .text → ∃ k < pool.length, i.arg = Int32.ofNat k
  loaded : Loaded code
  groups : ∀ depth, openGroups depth code = some depth

theorem Written.append (hx : Written pool xs) (hy : Written pool ys) :
    Written pool (xs ++ ys) := by
  refine ⟨fun i hi => ?_, fun i hi => ?_, hx.loaded.append hy.loaded, fun depth => ?_⟩
  · exact (List.mem_append.1 hi).elim (hx.ops i) (hy.ops i)
  · exact (List.mem_append.1 hi).elim (hx.texts i) (hy.texts i)
  · rw [Bytecode.openGroups_append, hx.groups]
    exact hy.groups depth

theorem Written.mono (h : Written pool code) (hp : pool <+: pool') : Written pool' code := by
  refine ⟨h.ops, fun i hi htext => ?_, h.loaded, h.groups⟩
  obtain ⟨k, hk, harg⟩ := h.texts i hi htext
  exact ⟨k, Nat.lt_of_lt_of_le hk hp.length_le, harg⟩

theorem Written.single {op : Opcode} (arg : Int32) (hop : op ≠ .ret ∧ op ≠ .paren)
    (hexec : op ≠ .label → op.isExecutable = true) (htext : op.operand ≠ .text)
    (hread : op.readsText = false) : Written pool [⟨op, arg⟩] := by
  refine ⟨?_, ?_, ?_, fun depth => Bytecode.openGroups_cons hop.2 depth []⟩
  · rintro i (_ | ⟨_, ⟨⟩⟩)
    exact ⟨hop.1, hexec⟩
  · rintro i (_ | ⟨_, ⟨⟩⟩) h
    exact absurd h htext
  · refine List.isChain_pair.2 fun h => ?_
    rw [hread] at h
    cases h

theorem Written.grouped (h : Written pool code) (mark : Bool) :
    Written pool (grouped mark code) := by
  cases mark with
  | false => exact h
  | true =>
    have hmark (arg : Int32) : Loaded [⟨.paren, arg⟩] := by
      apply List.isChain_pair.2
      intro h
      cases h
    have hmem {i : Insn} (hi : i ∈ Assembly.grouped true code) : i.op = .paren ∨ i ∈ code := by
      simp only [Assembly.grouped, if_true, List.mem_append, List.mem_cons, List.not_mem_nil,
        or_false] at hi
      rcases hi with (rfl | hi) | rfl
      · exact .inl rfl
      · exact .inr hi
      · exact .inl rfl
    refine ⟨fun i hi => ?_, fun i hi htext => ?_, ((hmark 0).append h.loaded).append (hmark 1),
      fun depth => ?_⟩
    · rcases hmem hi with hi | hi
      · rw [hi]
        exact ⟨fun hop => Opcode.noConfusion hop, fun _ => rfl⟩
      · exact h.ops i hi
    · rcases hmem hi with hi | hi
      · rw [hi] at htext
        cases htext
      · exact h.texts i hi htext
    · rw [Assembly.grouped, if_pos rfl, Bytecode.openGroups_append,
        Bytecode.openGroups_open, h.groups]
      exact Bytecode.openGroups_close depth []

theorem Written.branch {op : Opcode} (hop : op.isJump = true) (hx : Written pool xs)
    (hy : Written pool ys) (l : Int32) :
    Written pool (xs ++ ⟨op, l⟩ :: ys ++ [⟨.label, l⟩]) := by
  have hjump : Written pool [⟨op, l⟩] := by
    rcases isJump_iff.1 hop with rfl | rfl
    · exact .single l ⟨nofun, nofun⟩ (fun _ => rfl) nofun rfl
    · exact .single l ⟨nofun, nofun⟩ (fun _ => rfl) nofun rfl
  exact (hx.append (hjump.append hy)).append (.single l ⟨nofun, nofun⟩ (absurd rfl) nofun rfl)

theorem exists_addText (pool : List Bytes) (s : Bytes) :
    ∃ k < (addText pool s).1.length, (addText pool s).2 = Int32.ofNat k := by
  obtain ⟨-, k, hk, harg⟩ := addText_spec pool s
  exact ⟨k, (List.getElem?_eq_some_iff.1 hk).1, harg⟩

theorem Written.named {op : Opcode} {name arg : Int32} (hread : op.readsText = true)
    (hname : ∃ k < pool.length, name = Int32.ofNat k)
    (harg : op.operand = .text → ∃ k < pool.length, arg = Int32.ofNat k) :
    Written pool [⟨.loadText, name⟩, ⟨op, arg⟩] := by
  have hops : op ≠ .ret ∧ op ≠ .paren ∧ op.isExecutable = true := by
    cases op with
    | testIndirect | testAttr | testEval | testClass => exact ⟨nofun, nofun, rfl⟩
    | _ => cases hread
  refine ⟨?_, ?_, ?_, fun depth => ?_⟩
  · rintro i (_ | ⟨_, _ | ⟨_, ⟨⟩⟩⟩)
    · exact ⟨nofun, fun _ => rfl⟩
    · exact ⟨hops.1, fun _ => hops.2.2⟩
  · rintro i (_ | ⟨_, _ | ⟨_, ⟨⟩⟩⟩) h
    · exact hname
    · exact harg h
  · exact List.isChain_cons_cons.2 ⟨nofun, List.isChain_pair.2 fun _ => rfl⟩
  · rw [Bytecode.openGroups_cons (i := ⟨.loadText, name⟩) nofun,
      Bytecode.openGroups_cons hops.2.1]
    rfl

theorem Written.textTest {op : Opcode} (hread : op.readsText = true) (name pattern : Bytes)
    (pool : List Bytes) :
    Written (textTest op name pattern pool).2 (textTest op name pattern pool).1 := by
  obtain ⟨k, hk, hname⟩ := exists_addText pool name
  refine .named hread ⟨k, ?_, hname⟩ fun _ => exists_addText (addText pool name).1 pattern
  exact Nat.lt_of_lt_of_le hk (addText_spec _ pattern).1.length_le

theorem write_written (key : Key) (pool : List Bytes) (labels : Nat) :
    Written (write key pool labels).2.1 (write key pool labels).1 := by
  induction key generalizing pool labels with
  | and pos left right ihl ihr =>
    exact .branch rfl
      (((ihl pool (labels + 1)).mono (pool_prefix_write right _ _)).grouped left.isOr)
      ((ihr _ _).grouped right.isOr) (Int32.ofNat labels)
  | or pos left right ihl ihr =>
    exact .branch rfl ((ihl pool (labels + 1)).mono (pool_prefix_write right _ _)) (ihr _ _)
      (Int32.ofNat labels)
  | not pos operand ih =>
    exact ((ih pool labels).grouped _).append
      (.single 0 ⟨nofun, nofun⟩ (fun _ => rfl) nofun rfl)
  | indirect pos d lock => exact .named rfl (exists_addText pool lock) nofun
  | attr pos name pattern => exact .textTest rfl name pattern pool
  | eval pos name pattern => exact .textTest rfl name pattern pool
  | flagClass pos name pattern => exact .textTest rfl name pattern pool
  | _ => exact .single _ ⟨nofun, nofun⟩ (fun _ => rfl) nofun rfl

theorem nodup_addText (h : pool.Nodup) (s : Bytes) : (addText pool s).1.Nodup := by
  unfold addText
  split
  · exact h
  · rename_i hnone
    have hs : s ∉ pool := fun hmem => by simpa using List.findIdx?_eq_none_iff.1 hnone s hmem
    show (pool ++ [s]).Nodup
    rw [← List.concat_eq_append]
    exact h.concat hs

theorem nodup_pool_write (key : Key) : (write key [] 0).2.1.Nodup := by
  rw [pool_write]
  generalize key.texts = texts
  have hfold {pool : List Bytes} (h : pool.Nodup) :
      (texts.foldl (fun pool s => (addText pool s).1) pool).Nodup := by
    induction texts generalizing pool with
    | nil => exact h
    | cons s texts ih => exact ih (nodup_addText h s)
  exact hfold .nil

theorem exists_split_solid {k : Nat} (h : (solid code)[k]? = some i) :
    ∃ xs ys, code = xs ++ i :: ys ∧ i.op ≠ .label ∧ insnCount xs = k := by
  induction code generalizing k with
  | nil => cases h
  | cons j code ih =>
    by_cases hj : j.op = .label
    · rw [solid, List.filter_cons_of_neg (by simpa using hj)] at h
      obtain ⟨xs, ys, rfl, hi, hk⟩ := ih h
      exact ⟨j :: xs, ys, rfl, hi, by rw [insnCount_cons_label hj, hk]⟩
    · rw [solid, List.filter_cons_of_pos (by simpa using hj)] at h
      cases k with
      | zero =>
        cases h
        exact ⟨[], code, rfl, hj, rfl⟩
      | succ k =>
        obtain ⟨xs, ys, rfl, hi, hk⟩ := ih h
        exact ⟨j :: xs, ys, rfl, hi, by rw [insnCount_cons hj, hk]⟩

theorem exists_split_listing {k : Nat} (h : a.listing[k]? = some i) :
    ∃ xs j ys, a.code = xs ++ j :: ys ∧ j.op ≠ .label ∧ insnCount xs = k ∧ a.resolve j = i := by
  rw [listing, List.getElem?_map] at h
  obtain ⟨j, hj, rfl⟩ := Option.map_eq_some_iff.1 h
  obtain ⟨xs, ys, hcode, hop, hk⟩ := exists_split_solid hj
  exact ⟨xs, j, ys, hcode, hop, hk, rfl⟩

theorem listing_at (hcode : a.code = xs ++ i :: ys) (hi : i.op ≠ .label) :
    a.listing[insnCount xs]? = some (a.resolve i) := by
  have hsolid : solid (i :: ys) = i :: solid ys := List.filter_cons_of_pos (by simpa using hi)
  rw [listing, hcode, solid_append, hsolid, List.getElem?_map, ← length_solid,
    List.getElem?_append_right (Nat.le_refl _), Nat.sub_self]
  rfl

theorem length_listing (a : Assembly) : a.listing.length = insnCount a.code := by
  rw [listing, List.length_map, length_solid]

/-- A jump leads to where its label is, ahead of it. -/
theorem Linked.exists_target (h : Linked a.code) (hsize : a.bytes.length < 2 ^ 31)
    (hcode : a.code = xs ++ i :: ys) (hi : i.op.isJump = true) :
    ∃ front tail, a.code = front ++ ⟨.label, i.arg⟩ :: tail ∧ insnCount xs < insnCount front ∧
      (a.resolve i).arg.toInt = (Bytecode.insnWidth * insnCount front : Nat) := by
  obtain ⟨mid, tail, rfl, -, -, htail⟩ := h.split xs ys hcode hi
  have hcode' : a.code = (xs ++ i :: mid) ++ ⟨.label, i.arg⟩ :: tail := by simp [hcode]
  refine ⟨xs ++ i :: mid, tail, hcode', ?_, ?_⟩
  · rw [insnCount_append, insnCount_cons (op_ne_label hi)]
    omega
  · have hbound : insnCount (xs ++ i :: mid) * Bytecode.insnWidth < 2 ^ 31 := by
      have := a.length_bytes
      rw [hcode', insnCount_append, Nat.add_mul] at this
      omega
    rw [arg_resolve_jump a hi, labelOffset_eq hcode' (places_iff.2 rfl) (not_places htail),
      Bytecode.toInt_ofNat hbound, Nat.mul_comm]

/-- No label stands between two instructions that follow each other. -/
theorem insnCount_ne_of_adjacent (hcode : code = xs ++ i :: j :: ys) (hi : i.op ≠ .label)
    (hj : j.op ≠ .label) {l : Int32} (hlabel : code = front ++ ⟨.label, l⟩ :: tail) :
    insnCount front ≠ insnCount (xs ++ [i]) := by
  have hnext : insnCount (xs ++ [i]) = insnCount xs + 1 := by
    rw [insnCount_append, insnCount_cons hi]
    rfl
  rw [hnext]
  rw [hcode] at hlabel
  rcases List.append_eq_append_iff.1 hlabel with ⟨mid, rfl, hmid⟩ | ⟨mid, rfl, -⟩
  · rw [insnCount_append]
    rcases mid with _ | ⟨i', _ | ⟨j', mid⟩⟩
    · cases hmid
      exact absurd rfl hi
    · cases hmid
      exact absurd rfl hj
    · cases hmid
      rw [insnCount_cons hi, insnCount_cons hj]
      omega
  · rw [insnCount_append]
    omega

theorem length_flatMap_texts (pool : List Bytes) :
    (pool.flatMap (· ++ [0])).length = (pool.map (·.length + 1)).sum := by
  simp [List.length_flatMap]

theorem toInt_textOffset (hsize : a.bytes.length < 2 ^ 31) {k : Nat} (hk : k < a.pool.length) :
    (a.textOffset (Int32.ofNat k)).toInt =
      (Bytecode.insnWidth * a.listing.length + ((a.pool.take k).map (·.length + 1)).sum :
        Nat) := by
  have hpool : (a.pool.flatMap (· ++ [0])).length =
      ((a.pool.take k).flatMap (· ++ [0])).length +
        ((a.pool.drop k).flatMap (· ++ [0])).length := by
    rw [← List.length_append, ← List.flatMap_append, List.take_append_drop]
  have hshort := length_le_length_flatMap a.pool
  rw [length_bytes] at hsize
  rw [textOffset, Bytecode.toInt_ofNat (n := k) (by omega), Int.toNat_natCast,
    Bytecode.toInt_ofNat (by omega), length_listing, length_flatMap_texts, Nat.mul_comm]

/-- Assembly for a key, with what ends the run behind it. -/
structure Complete (a : Assembly) : Prop where
  code : ∃ body arg, a.code = body ++ [⟨.ret, arg⟩] ∧ Written a.pool body
  distinct : a.pool.Nodup

theorem ofKey_complete {key : Key} (h : ofKey (some key) = .ok a) : a.Complete := by
  obtain ⟨-, rfl⟩ := ofKey_eq_ok h
  exact ⟨⟨_, 0, rfl, write_written key [] 0⟩, nodup_pool_write key⟩

theorem Complete.loaded (h : a.Complete) : Loaded a.code := by
  obtain ⟨body, arg, hcode, hbody⟩ := h.code
  rw [hcode]
  exact hbody.loaded.append (List.isChain_pair.2 nofun)

theorem Complete.groups (h : a.Complete) : openGroups 0 a.listing = some 0 := by
  obtain ⟨body, arg, hcode, hbody⟩ := h.code
  have hparen (i : Insn) (hi : i.op = .paren) : a.resolve i = i := by
    simp [resolve, hi, Opcode.operand]
  rw [listing, Bytecode.openGroups_map a.op_resolve hparen, openGroups_solid, hcode,
    Bytecode.openGroups_append, hbody.groups]
  rfl

theorem Complete.texts (h : a.Complete) (hi : i ∈ a.listing) (htext : i.op.operand = .text) :
    ∃ k < a.pool.length, i.arg = a.textOffset (Int32.ofNat k) := by
  obtain ⟨body, arg, hcode, hbody⟩ := h.code
  obtain ⟨j, hj, rfl⟩ := List.mem_map.1 hi
  rw [op_resolve] at htext
  have hmem : j ∈ body ++ [⟨.ret, arg⟩] := hcode ▸ List.mem_of_mem_filter hj
  rcases List.mem_append.1 hmem with hj | hj
  · obtain ⟨k, hk, harg⟩ := hbody.texts j hj htext
    refine ⟨k, hk, ?_⟩
    rw [← harg]
    simp only [resolve, htext]
  · rw [List.mem_singleton.1 hj] at htext
    cases htext

/-- The operations of a listing, which ends in the only `ret` of it. -/
theorem Complete.ops (h : a.Complete) {init : List Insn} {last : Insn}
    (hops : (init ++ [last]).map (·.op) = a.listing.map (·.op)) :
    ∀ i ∈ init, i.op.isExecutable = true ∧ i.op ≠ .ret := by
  obtain ⟨body, arg, hcode, hbody⟩ := h.code
  rw [listing, hcode, solid_append, List.map_append, List.map_append, List.map_append] at hops
  obtain ⟨hinit, -⟩ := List.append_inj' hops rfl
  intro i hi
  have hmem : i.op ∈ ((solid body).map a.resolve).map (·.op) := hinit ▸ List.mem_map_of_mem hi
  obtain ⟨_, hmem', hop⟩ := List.mem_map.1 hmem
  obtain ⟨j, hsolid, rfl⟩ := List.mem_map.1 hmem'
  obtain ⟨hj, hlabel⟩ := List.mem_filter.1 hsolid
  rw [← hop, op_resolve]
  exact ⟨(hbody.ops j hj).2 (by simpa using hlabel), (hbody.ops j hj).1⟩

theorem Threaded.ops_listing (h : Threaded a b) :
    b.listing.map (·.op) = a.listing.map (·.op) := by
  have hops (l : List Insn) : l.map (·.op) = (l.map blank).map (·.op) := by
    rw [List.map_map]
    exact List.map_congr_left fun i _ => (Decompile.op_blank i).symm
  rw [hops, h.listing_blank, ← hops]

theorem Threaded.mem_listing (h : Threaded a b) (hi : i ∈ b.listing)
    (hop : i.op.isJump = false) : i ∈ a.listing := by
  have hmem : blank i ∈ a.listing.map blank := h.listing_blank ▸ List.mem_map_of_mem hi
  obtain ⟨j, hj, hblank⟩ := List.mem_map.1 hmem
  rwa [Bytecode.eq_of_blank hblank hop] at hj

theorem WellFormed.jumps_listing (h : a.WellFormed) (hsize : a.bytes.length < 2 ^ 31) {k : Nat}
    (hk : a.listing[k]? = some i) (hi : i.op.isJump = true) :
    ∃ t, i.arg.toInt = (Bytecode.insnWidth * t : Nat) ∧ k < t ∧ t ≤ a.listing.length - 1 := by
  obtain ⟨xs, j, ys, hcode, -, rfl, rfl⟩ := exists_split_listing hk
  rw [op_resolve] at hi
  obtain ⟨front, tail, hfront, hlt, harg⟩ := h.linked.exists_target hsize hcode hi
  refine ⟨insnCount front, harg, hlt, ?_⟩
  -- What ends the run is still behind the label.
  have hbehind : EndsInRet (⟨.label, j.arg⟩ :: tail) := .of_append (by simp) (hfront ▸ h.ends)
  obtain ⟨tail', arg, rfl⟩ := hbehind.tail (by simp)
  rw [length_listing, hfront, insnCount_append, insnCount_cons_label rfl, insnCount_append,
    insnCount_cons (i := ⟨.ret, arg⟩) nofun]
  omega

theorem WellFormed.loads_listing (h : a.WellFormed) (hload : Loaded a.code)
    (hsize : a.bytes.length < 2 ^ 31) {k : Nat}
    (hk : a.listing[k]? = some i) (hi : i.op.readsText = true) :
    (∃ arg, 0 < k ∧ a.listing[k - 1]? = some ⟨.loadText, arg⟩) ∧
      ∀ j ∈ a.listing, j.op.isJump = true → j.arg.toInt ≠ (Bytecode.insnWidth * k : Nat) := by
  obtain ⟨xs, j, ys, hcode, hj, rfl, rfl⟩ := exists_split_listing hk
  rw [op_resolve] at hi
  rw [hcode] at hload
  obtain ⟨xs', arg, rfl⟩ := hload.before hi
  have hcode' : a.code = xs' ++ ⟨.loadText, arg⟩ :: j :: ys := by simp [hcode]
  have hcount : insnCount (xs' ++ [⟨.loadText, arg⟩]) = insnCount xs' + 1 := by
    rw [insnCount_append, insnCount_cons (i := ⟨.loadText, arg⟩) nofun]
    rfl
  refine ⟨⟨a.textOffset arg, by omega, ?_⟩, fun jump hjump hop heq => ?_⟩
  · rw [hcount, Nat.add_sub_cancel, listing_at hcode' nofun]
    rfl
  · obtain ⟨k', hk'⟩ := List.mem_iff_getElem?.1 hjump
    obtain ⟨ys, jump, zs, hsplit, -, -, rfl⟩ := exists_split_listing hk'
    rw [op_resolve] at hop
    obtain ⟨front, tail, hfront, -, harg⟩ := h.linked.exists_target hsize hsplit hop
    rw [harg, Int.ofNat_inj] at heq
    exact insnCount_ne_of_adjacent hcode' nofun hj hfront
      (Nat.eq_of_mul_eq_mul_left (by decide) heq)

/-- The code of a program that was written for a key and threaded. -/
theorem Threaded.wellFormed_bytes (h : Threaded a b) (ha : a.Complete) (hb : b.WellFormed)
    (hsize : b.bytes.length < 2 ^ 31) : Bytecode.WellFormed b.bytes b.listing b.pool := by
  obtain ⟨init, arg, hends⟩ := endsInRet_listing hb.ends
  have hops := h.ops_listing
  rw [hends] at hops
  have hinit := ha.ops hops
  have hgroups (l : List Insn) : openGroups 0 (l.map blank) = openGroups 0 l :=
    Bytecode.openGroups_map Decompile.op_blank
      (fun i hi => Decompile.blank_of_op (by rw [hi]; rfl)) 0 l
  refine ⟨rfl, ?_, ?_, ⟨init, arg, hends, fun i hi => (hinit i hi).2⟩,
    fun k i => hb.jumps_listing hsize, ?_,
    fun k i => hb.loads_listing (h.loaded ha.loaded) hsize, ?_, h.pool ▸ ha.distinct⟩
  · rw [length_bytes, length_flatMap_texts, length_listing, Nat.mul_comm]
  · rw [hends]
    exact Bytecode.instructionsFrom_flatMap _ [] hends rfl hinit
  · intro i hi htext
    obtain ⟨k, hk, harg⟩ := ha.texts (h.mem_listing hi (Opcode.not_jump_of_text htext)) htext
    rw [← h.pool] at hk
    exact ⟨k, hk, by rw [harg, ← h.textOffset_eq, toInt_textOffset hsize hk]⟩
  · rw [← hgroups, h.listing_blank, hgroups]
    exact ha.groups

end Assembly

/-- The code of a key is well formed. -/
theorem Lock.code_wellFormed {key : Key} {lock : LockCode}
    (h : Lock.ofKey (some key) = .ok lock) :
    ∃ code, lock = some code ∧
      (code.length < 2 ^ 31 → ∃ insns pool, Bytecode.WellFormed code insns pool) := by
  cases ha : Assembly.ofKey (some key) with
  | error d =>
    rw [Lock.ofKey, ha] at h
    cases h
  | ok a =>
    rw [Lock.ofKey, ha] at h
    cases h
    refine ⟨a.threadJumps.bytes, Assembly.emit_ofKey ha, fun hsize => ?_⟩
    obtain ⟨hw, hlabels⟩ :=
      Assembly.ofKey_wellFormed ha (Assembly.length_bytes_threadJumps a ▸ hsize)
    obtain ⟨ht, hw'⟩ := Assembly.threadJumps_threaded hw hlabels
    exact ⟨_, _, ht.wellFormed_bytes (Assembly.ofKey_complete ha) hw' hsize⟩

theorem Lock.code_wellFormed_sample :
    ∃ code, Lock.ofKey (some Key.sample) = .ok (some code) ∧ code.length < 2 ^ 31 ∧
      ∃ insns pool, Bytecode.WellFormed code insns pool := by
  obtain ⟨code, hcode, hform⟩ :=
    Lock.code_wellFormed (show Lock.ofKey (some Key.sample) = .ok _ from rfl)
  have hsize : code.length < 2 ^ 31 := by
    rw [← Option.some.inj hcode]
    decide
  exact ⟨code, congrArg Except.ok hcode, hsize, hform hsize⟩

end Locksmith
