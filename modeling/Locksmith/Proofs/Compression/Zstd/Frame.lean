import Locksmith.Proofs.Compression.Repetitions
import Locksmith.Proofs.Compression.Zstd.Sequences

namespace Locksmith
namespace Zstd

open Matches (Run Tells CopyAt copyBack)

theorem takeBytes_append (s tail : Bytes) : takeBytes s.length (s ++ tail) = .ok (s, tail) := by
  rw [takeBytes, if_neg (by rw [List.length_append]; omega), List.take_left, List.drop_left]

theorem takeNat_ofNat {w n : Nat} (h : n < 256 ^ w) (tail : Bytes) :
    takeNat w (LittleEndian.ofNat w n ++ tail) = .ok (n, tail) := by
  have hbytes := takeBytes_append (LittleEndian.ofNat w n) tail
  rw [LittleEndian.length_ofNat] at hbytes
  simp only [takeNat, hbytes, Except.map, LittleEndian.toNat_ofNat_of_lt h]

/-- Stored literals are read back. -/
theorem readLiterals_stored {limit : Nat} {lits : Bytes} (last : Option Huffman.Table)
    (tail : Bytes) (hlimit : lits.length ≤ limit) (hsmall : lits.length < 2 ^ 20) :
    readLiterals limit last (LittleEndian.ofNat 3 (lits.length * 16 + 12) ++ (lits ++ tail)) =
      .ok (lits, last, tail) := by
  have hhead : (LittleEndian.ofNat 3 (lits.length * 16 + 12) ++ (lits ++ tail)).head? =
      some ((lits.length * 16 + 12) % 256).toUInt8 := rfl
  have hbyte : ((lits.length * 16 + 12) % 256).toUInt8.toNat = (lits.length * 16 + 12) % 256 :=
    UInt8.toNat_ofNat_of_lt' (Nat.mod_lt _ (by decide))
  have hkind : (lits.length * 16 + 12) % 256 % 4 = 0 := by omega
  have hformat : (lits.length * 16 + 12) % 256 / 4 % 4 = 3 := by omega
  have hsize : (lits.length * 16 + 12) / 16 = lits.length := by omega
  have hnat := takeNat_ofNat (w := 3) (n := lits.length * 16 + 12) (by omega) (lits ++ tail)
  simp only [readLiterals, hhead, hbyte, hkind, hformat, hnat, hsize, takeBytes_append, bind,
    Except.bind, pure, Except.pure, if_neg (Nat.not_lt.2 hlimit), if_true, Nat.zero_lt_two]

theorem readTable_single {k : CodeKind} {code : Nat} (last : Option Fse.Table) (tail : Bytes)
    (h : code < k.ranges.size) (hk : k.ranges.size ≤ 256) :
    k.readTable 1 last (code.toUInt8 :: tail) = .ok (.single code, tail) := by
  have htoNat : code.toUInt8.toNat = code := UInt8.toNat_ofNat_of_lt' (h.trans_le hk)
  rw [CodeKind.readTable, htoNat, if_pos h]

variable {data lits : Bytes} {window offset length : Nat} {out : Array UInt8}

/-- One sequence with all of the literals is carried out. -/
theorem execute_run {limit : Nat} (recent : Recent) (hback : 0 < offset)
    (hreaches : offset ≤ out.size + lits.length) (hwindow : offset ≤ window)
    (hlimit : out.size + lits.length + length ≤ limit) :
    ∃ recent', execute window 0 limit [⟨lits.length, offset + 3, length⟩] recent lits out =
      .ok (recent', [], copyBack offset length (out ++ lits)) := by
  have hsize : (out ++ lits).size = out.size + lits.length := by
    rw [← Array.length_toList, Array.toList_appendList, List.length_append, Array.length_toList]
  have hresolve :
      recent.resolve (offset + 3) lits.length = (offset, ⟨offset, recent.a, recent.b⟩) := by
    rw [Recent.resolve, if_pos (by omega), Nat.add_sub_cancel]
  refine ⟨⟨offset, recent.a, recent.b⟩, ?_⟩
  rw [execute, if_neg (Nat.lt_irrefl _), if_neg (Nat.not_lt.2 hlimit)]
  dsimp only
  rw [hresolve, List.take_length, List.drop_length]
  dsimp only
  rw [if_neg (by simp; omega), execute]

/-- What the literals, the codes and the extra bits of a block say is carried out. -/
theorem decodeBlock_run {ll ol ml : Nat} {lr or mr : Range} {stream : Bytes} (h : History)
    (hl : CodeKind.literals.Spells lits.length ll lr)
    (ho : CodeKind.offsets.Spells (offset + 3) ol or)
    (hm : CodeKind.lengths.Spells length ml mr)
    (hstream : decodeSequences ⟨.single ll, .single ol, .single ml⟩ 1 stream =
      .ok #[⟨lits.length, offset + 3, length⟩])
    (hback : 0 < offset) (hreaches : offset ≤ out.size + lits.length)
    (hwindow : offset ≤ window)
    (hlimit : lits.length + length ≤ min blockLimit window) :
    ∃ h', decodeBlock window 0 h (LittleEndian.ofNat 3 (lits.length * 16 + 12) ++
      (lits ++ 1 :: 0x54 :: ll.toUInt8 :: ol.toUInt8 :: ml.toUInt8 :: stream)) out =
        .ok (h', copyBack offset length (out ++ lits)) := by
  have hlits := readLiterals_stored h.huffman
    (1 :: 0x54 :: ll.toUInt8 :: ol.toUInt8 :: ml.toUInt8 :: stream)
    (Nat.le_of_add_right_le hlimit) (by rw [blockLimit] at hlimit; omega)
  obtain ⟨recent, hrun⟩ := execute_run h.recent hback hreaches hwindow
    (show out.size + lits.length + length ≤ out.size + min blockLimit window by omega)
  have hsize :
      (copyBack offset length (out ++ lits)).size = out.size + lits.length + length := by
    rw [Matches.size_copyBack, ← Array.length_toList, Array.toList_appendList,
      List.length_append, Array.length_toList]
  have hcount (tail : Bytes) : readSequenceCount (1 :: tail) = .ok (1, tail) := rfl
  have hmodes (tail : Bytes) : takeNat 1 (0x54 :: tail) = .ok (0x54, tail) :=
    takeNat_ofNat (w := 1) (n := 0x54) (by decide) tail
  have hll :=
    readTable_single h.literals (ol.toUInt8 :: ml.toUInt8 :: stream) hl.code_lt
      (by decide +kernel)
  have hol := readTable_single h.offsets (ml.toUInt8 :: stream) ho.code_lt (by decide +kernel)
  have hml := readTable_single h.lengths stream hm.code_lt (by decide +kernel)
  refine ⟨⟨h.huffman, some (.single ll), some (.single ol), some (.single ml), recent⟩, ?_⟩
  simp only [decodeBlock, hlits, hcount, hmodes, bind, Except.bind, hll, hol, hml, hstream,
    hrun, pure, Except.pure]
  rw [if_neg Nat.one_ne_zero, if_neg (by decide),
    if_neg (by rw [hsize, List.length_nil]; omega), Array.appendList_nil]

theorem length_blockHeader (last : Bool) (kind size : Nat) :
    (blockHeader last kind size).length = 3 :=
  LittleEndian.length_ofNat _ _

theorem takeNat_blockHeader (last : Bool) {kind size : Nat} (hkind : kind < 4)
    (hsize : size ≤ blockLimit) (tail : Bytes) :
    ∃ head, takeNat 3 (blockHeader last kind size ++ tail) = .ok (head, tail) ∧
      head / 8 = size ∧ head / 2 % 4 = kind ∧
      head % 2 = last.toNat := by
  rw [blockLimit] at hsize
  refine ⟨_, takeNat_ofNat ?_ tail, ?_⟩
  · split <;> omega
  · cases last <;> simp <;> omega

/-- A stored block is appended, and decoding goes on unless it is the last one. -/
theorem decodeBlocks_stored {piece : Bytes} (last : Bool) (fuel : Nat) (h : History)
    (tail : Bytes) (hlimit : piece.length ≤ min blockLimit window)
    (hsize : (out ++ piece).size ≤ sizeLimit) :
    decodeBlocks window 0 (fuel + 1) h (storedBlock last piece ++ tail) out =
      if last then .ok (tail, out ++ piece)
      else decodeBlocks window 0 fuel h tail (out ++ piece) := by
  obtain ⟨head, hhead, hlength, hkind, hlast⟩ :=
    takeNat_blockHeader last (show 0 < 4 by decide) (hlimit.trans (Nat.min_le_left _ _))
      (piece ++ tail)
  rw [storedBlock, List.append_assoc]
  simp only [decodeBlocks, hhead, hlength, hkind, hlast, bind, Except.bind,
    if_neg (Nat.not_lt.2 hlimit), takeBytes_append, pure, Except.pure,
    if_neg (Nat.not_lt.2 hsize), Bool.toNat_eq_one]

/-- What a compressed block decodes to is taken, and decoding goes on. -/
theorem decodeBlocks_compressed {body : Bytes} {h h' : History} {out' : Array UInt8}
    (fuel : Nat) (tail : Bytes) (hbody : decodeBlock window 0 h body out = .ok (h', out'))
    (hlimit : body.length ≤ min blockLimit window)
    (htwo : 2 ≤ body.length) (hsize : out'.size ≤ sizeLimit) :
    decodeBlocks window 0 (fuel + 1) h (blockHeader false 2 body.length ++ (body ++ tail)) out =
      decodeBlocks window 0 fuel h' tail out' := by
  obtain ⟨head, hhead, hlength, hkind, hlast⟩ :=
    takeNat_blockHeader false (show 2 < 4 by decide) (hlimit.trans (Nat.min_le_left _ _))
      (body ++ tail)
  simp only [decodeBlocks, hhead, hlength, hkind, hlast, bind, Except.bind,
    if_neg (Nat.not_lt.2 hlimit), if_neg (Nat.not_lt.2 htwo), takeBytes_append, hbody, pure,
    Except.pure, if_neg (Nat.not_lt.2 hsize), Bool.toNat_eq_one, Bool.false_eq_true, if_false]

/-- Blocks take what is decoded from `x` to `y`, in a frame of data of a given size. -/
def Carries (size : Nat) (s x y : Bytes) : Prop :=
  ∀ (h : History) (fuel : Nat) (tail : Bytes) (out : Array UInt8), (s ++ tail).length < fuel →
    out.toList = x → ∃ h' fuel' out', tail.length < fuel' ∧ out'.toList = y ∧
      decodeBlocks (max size minWindow) 0 fuel h (s ++ tail) out =
        decodeBlocks (max size minWindow) 0 fuel' h' tail out'

variable {size : Nat} {s t x y z : Bytes}

theorem Carries.refl (size : Nat) (x : Bytes) : Carries size [] x x :=
  fun h fuel _ out hfuel hout => ⟨h, fuel, out, hfuel, hout, rfl⟩

theorem Carries.trans (hs : Carries size s x y) (ht : Carries size t y z) :
    Carries size (s ++ t) x z := by
  intro h fuel tail out hfuel hout
  rw [List.append_assoc] at hfuel ⊢
  obtain ⟨h₁, fuel₁, out₁, hfuel₁, hout₁, heq₁⟩ := hs h fuel (t ++ tail) out hfuel hout
  obtain ⟨h₂, fuel₂, out₂, hfuel₂, hout₂, heq₂⟩ := ht h₁ fuel₁ tail out₁ hfuel₁ hout₁
  exact ⟨h₂, fuel₂, out₂, hfuel₂, hout₂, heq₁.trans heq₂⟩

theorem carries_stored {piece : Bytes} (hsize : size ≤ sizeLimit)
    (hfits : (x ++ piece).length ≤ size) (hpiece : piece.length ≤ pieceLimit) :
    Carries size (storedBlock false piece) x (x ++ piece) := by
  intro h fuel tail out hfuel hout
  have hall : (out ++ piece).toList = x ++ piece := by rw [Array.toList_appendList, hout]
  have hlimit : piece.length ≤ min blockLimit (max size minWindow) := by
    rw [List.length_append] at hfits
    rw [pieceLimit] at hpiece
    rw [blockLimit]
    omega
  rw [List.length_append, storedBlock, List.length_append, length_blockHeader] at hfuel
  obtain ⟨fuel, rfl⟩ := Nat.exists_eq_add_one_of_ne_zero (Nat.ne_zero_of_lt hfuel)
  refine ⟨h, fuel, out ++ piece, by omega, hall, ?_⟩
  rw [decodeBlocks_stored false fuel h tail hlimit, if_neg Bool.false_ne_true]
  rw [← Array.length_toList, hall]
  exact hfits.trans hsize

theorem carries_pieces {n : Nat} (hsize : size ≤ sizeLimit) (hn : n + 1 ≤ pieceLimit)
    (hfits : (x ++ s).length ≤ size) :
    Carries size ((Bytes.pieces n s).flatMap (storedBlock false)) x (x ++ s) := by
  fun_induction Bytes.pieces n s generalizing x with
  | case1 =>
    rw [List.append_nil]
    exact .refl size x
  | case2 b r ih =>
    have hsplit : x ++ b :: r = x ++ (b :: r.take n) ++ r.drop n := by
      rw [List.append_assoc, List.cons_append, List.take_append_drop]
    rw [hsplit] at hfits ⊢
    rw [List.flatMap_cons]
    refine (carries_stored hsize ?_ ?_).trans (ih hfits)
    · rw [List.length_append] at hfits
      exact Nat.le_of_add_right_le hfits
    · rw [List.length_cons, List.length_take]
      omega

def runBody (lits : Bytes) (offset length : Nat) : Bytes :=
  let bits := extraBits (codeOf .literals lits.length).2 (codeOf .offsets (offset + 3)).2
    (codeOf .lengths length).2 lits.length (offset + 3) length
  LittleEndian.ofNat 3 (lits.length * 16 + 12) ++
    (lits ++ 1 :: 0x54 :: (codeOf .literals lits.length).1.toUInt8 ::
    (codeOf .offsets (offset + 3)).1.toUInt8 :: (codeOf .lengths length).1.toUInt8 ::
      LittleEndian.ofNat (bits.log2 / 8 + 1) bits)

theorem runBlock_eq (lits : Bytes) (offset length : Nat) :
    runBlock ⟨lits, offset, length⟩ =
      blockHeader false 2 (runBody lits offset length).length ++
        runBody lits offset length := by
  simp only [runBlock, runBody, extraBits, List.append_assoc, List.cons_append, List.nil_append]

/-- A run with few literals and a copy that is not too long is one block. -/
theorem carries_runBlock {p : Nat} (hsize : data.length ≤ sizeLimit)
    (hlits : data.take p = x ++ lits) (copy : CopyAt data p offset length)
    (near : offset ≤ Matches.reach) (hleast : leastCopy ≤ length)
    (hmost : length < leastCopy + pieceLimit) (hfew : lits.length < pieceLimit)
    (hroom : lits.length + 16 ≤ max data.length minWindow) :
    Carries data.length (runBlock ⟨lits, offset, length⟩) x (data.take (p + length)) := by
  have hfits := copy.fits
  have hreaches := copy.reaches
  have hat : x.length + lits.length = p := by
    rw [← List.length_append, ← hlits, List.length_take]
    omega
  rw [leastCopy] at hleast hmost
  rw [pieceLimit] at hmost hfew
  rw [Matches.reach] at near
  have hl : CodeKind.literals.Spells lits.length _ _ :=
    codeOf_spells literalCodes_chained (Nat.zero_le _) (by omega)
  have ho : CodeKind.offsets.Spells (offset + 3) _ _ :=
    codeOf_spells offsetCodes_chained (by omega) (by omega)
  have hm : CodeKind.lengths.Spells length _ _ :=
    codeOf_spells matchCodes_chained hleast (by omega)
  -- a block must not be longer than the window
  have hlength : (runBody lits offset length).length ≤ lits.length + 16 := by
    have hlog := log2_extraBits_lt hl ho hm
    simp only [runBody, List.length_append, List.length_cons, LittleEndian.length_ofNat]
    omega
  have htwo : 2 ≤ (runBody lits offset length).length := by
    rw [runBody, List.length_append, LittleEndian.length_ofNat]
    omega
  intro h fuel tail out hfuel hout
  have hnow : out.size = x.length := by rw [← hout, Array.length_toList]
  have hall : (out ++ lits).toList = data.take p := by rw [Array.toList_appendList, hout, hlits]
  have hcopied := Matches.toList_copyBack copy hall
  obtain ⟨h', hblock⟩ := decodeBlock_run h hl ho hm (decodeSequences_codes hl ho hm) copy.back
    (show offset ≤ out.size + lits.length by omega)
    (show offset ≤ max data.length minWindow by omega)
    (by rw [blockLimit]; omega)
  rw [runBlock_eq, List.length_append, List.length_append, length_blockHeader] at hfuel
  obtain ⟨fuel, rfl⟩ := Nat.exists_eq_add_one_of_ne_zero (Nat.ne_zero_of_lt hfuel)
  refine ⟨h', fuel, _, by omega, hcopied, ?_⟩
  rw [runBlock_eq, List.append_assoc]
  refine decodeBlocks_compressed fuel tail hblock ?_ htwo ?_
  · rw [blockLimit]
    omega
  · rw [← Array.length_toList, hcopied]
    exact (List.length_take_le' _ _).trans hsize

theorem carries_copies {p k : Nat} (hsize : data.length ≤ sizeLimit)
    (copy : CopyAt data p offset (k * pieceLimit)) (near : offset ≤ Matches.reach) :
    Carries data.length (List.replicate k (runBlock ⟨[], offset, pieceLimit⟩)).flatten
      (data.take p) (data.take (p + k * pieceLimit)) := by
  induction k generalizing p with
  | zero =>
    rw [Nat.zero_mul]
    exact .refl _ _
  | succ k ih =>
    rw [Nat.succ_mul, Nat.add_comm (k * pieceLimit)] at copy ⊢
    rw [List.replicate_succ, List.flatten_cons, ← Nat.add_assoc]
    refine (carries_runBlock hsize ?_ copy.take near (by decide) (by decide) (by decide)
      ?_).trans (ih copy.drop)
    · rw [List.append_nil]
    · exact Nat.le_trans (by decide) (Nat.le_max_right _ _)

/-- All the blocks of a run take its literals and its copy. -/
theorem carries_runBlocks {r : Run} {a p : Nat} (hsize : data.length ≤ sizeLimit)
    (hlits : data.take p = data.take a ++ r.literals) (copy : CopyAt data p r.offset r.length)
    (near : r.offset ≤ Matches.reach) (long : minLength ≤ r.length) :
    Carries data.length (runBlocks r) (data.take a) (data.take (p + r.length)) := by
  have hfits := copy.fits
  have hstored := Nat.div_add_mod' r.literals.length pieceLimit
  have hfew := Nat.mod_lt r.literals.length (show 0 < pieceLimit by decide)
  have hfull := Nat.div_add_mod' (r.length - leastCopy) pieceLimit
  have hshort := Nat.mod_lt (r.length - leastCopy) (show 0 < pieceLimit by decide)
  have hroom : (data.take a ++ r.literals).length + r.length ≤ data.length := by
    rw [← hlits, List.length_take]
    omega
  rw [List.length_append] at hroom
  rw [runBlocks]
  generalize r.literals.length / pieceLimit * pieceLimit = stored at hstored ⊢
  generalize (r.length - leastCopy) / pieceLimit = full at hfull ⊢
  have hparts :
      data.take p = data.take a ++ r.literals.take stored ++ r.literals.drop stored := by
    rw [List.append_assoc, List.take_append_drop, hlits]
  have hleast : leastCopy ≤ minLength := by decide
  -- a long copy is cut: the first part goes with the literals, the pieces behind it have blocks
  -- of their own
  have hlength : r.length - full * pieceLimit + full * pieceLimit = r.length := by omega
  rw [← hlength] at copy
  have hcopies := carries_copies hsize copy.drop near
  rw [Nat.add_assoc, hlength] at hcopies
  have hpieces : Carries data.length
      ((Bytes.pieces (pieceLimit - 1) (r.literals.take stored)).flatMap (storedBlock false))
      (data.take a)
      (data.take a ++ r.literals.take stored) := by
    apply carries_pieces hsize (by decide)
    have htake := List.length_take_le' stored r.literals
    rw [List.length_append]
    omega
  refine (hpieces.trans (carries_runBlock hsize hparts copy.take near ?_ ?_ ?_ ?_)).trans
    hcopies
  · omega
  · omega
  · rw [List.length_drop]
    omega
  · rw [List.length_drop]
    rw [minLength] at long
    omega

/-- The blocks of runs that tell the data take the decoder from `a` to `b`. -/
theorem carries_tells {runs : List Run} {a b : Nat} (hsize : data.length ≤ sizeLimit)
    (h : Tells data minLength a runs b) :
    Carries data.length (runs.flatMap runBlocks) (data.take a) (data.take b) := by
  induction h with
  | nil a => exact .refl _ _
  | cons literals copy near long _ ih =>
    rw [List.flatMap_cons]
    exact (carries_runBlocks hsize literals copy near long).trans ih

theorem readHeader_single {size : Nat} (hsize : size < 2 ^ 32) (tail : Bytes) :
    readHeader (0xA0 :: (LittleEndian.ofNat 4 size ++ tail)) =
      .ok (⟨max size minWindow, some size, false⟩, tail) := by
  have hbyte (s : Bytes) : takeNat 1 (0xA0 :: s) = .ok (0xA0, s) :=
    takeNat_ofNat (w := 1) (n := 0xA0) (by decide) s
  have hnone (s : Bytes) : takeNat 0 s = .ok (0, s) :=
    takeNat_ofNat (w := 0) (n := 0) (by decide) s
  have hcontent := takeNat_ofNat (w := 4) (n := size) hsize tail
  have hwindow : ¬ sizeLimit < max size minWindow := by
    rw [sizeLimit, minWindow, Nat.shiftLeft_eq]
    omega
  have hsmall : ¬ sizeLimit < size := fun h => hwindow (h.trans_le (Nat.le_max_left _ _))
  simp [readHeader, hbyte, hnone, hcontent, hwindow, hsmall, bind, Except.bind, pure,
    Except.pure, Nat.shiftLeft_eq]

/-- Blocks that take the decoder through all of the data, and an empty last one. -/
theorem decodeBlocks_frame {blocks : Bytes} (hsize : data.length ≤ sizeLimit)
    (h : Carries data.length blocks [] data) :
    decodeBlocks (max data.length minWindow) 0
      ((blocks ++ storedBlock true []).length + 1) .initial
      (blocks ++ storedBlock true []) #[] = .ok ([], data.toArray) := by
  obtain ⟨h', fuel, out, hfuel, hout, hblocks⟩ :=
    h .initial _ (storedBlock true []) #[] (Nat.lt_succ_self _) rfl
  obtain ⟨fuel, rfl⟩ := Nat.exists_eq_add_one_of_ne_zero (Nat.ne_zero_of_lt hfuel)
  have hall : out ++ ([] : Bytes) = data.toArray := by
    rw [Array.appendList_nil, ← hout, Array.toArray_toList]
  have hfits : (out ++ ([] : Bytes)).size ≤ sizeLimit := by rwa [hall, List.size_toArray]
  have hlast :=
    decodeBlocks_stored true fuel h' []
      (Nat.zero_le (min blockLimit (max data.length minWindow))) hfits
  rw [List.append_nil, if_pos rfl, hall] at hlast
  rw [hblocks, hlast]

theorem decodeFrames_frame {blocks : Bytes} (fuel : Nat) (hdata : data.length < 2 ^ 32)
    (hblocks :
      decodeBlocks (max data.length minWindow) 0 (blocks.length + 1) .initial blocks #[] =
      .ok ([], data.toArray)) :
    decodeFrames (fuel + 2)
      (LittleEndian.ofNat 4 magic ++ 0xA0 :: (LittleEndian.ofNat 4 data.length ++ blocks)) #[] =
      .ok data.toArray := by
  have hmagic :=
    takeNat_ofNat (w := 4) (n := magic) (by decide)
      (0xA0 :: (LittleEndian.ofNat 4 data.length ++ blocks))
  have hnonempty (s : Bytes) : (LittleEndian.ofNat 4 magic ++ s).isEmpty = false := rfl
  have hother : magic / 16 ≠ 0x184D2A5 := by decide
  simp [decodeFrames, hnonempty, hmagic, hother, readHeader_single hdata, hblocks, bind,
    Except.bind, pure, Except.pure]

/-- A frame gives back the data that it was made from. -/
theorem decode_encode (hdata : data.length < 2 ^ 32) : decode (encode data) = .ok data := by
  have hsize : data.length ≤ sizeLimit := by
    rw [sizeLimit, Nat.shiftLeft_eq]
    omega
  obtain ⟨b, htells, hrest⟩ := Matches.ofBytes_tells minLength data
  have hpieces := carries_pieces (n := pieceLimit - 1) hsize (by decide)
    (Nat.le_of_eq (congrArg List.length hrest.symm))
  rw [← hrest] at hpieces
  have hblocks := decodeBlocks_frame hsize ((carries_tells hsize htells).trans hpieces)
  have hencode : encode data =
      LittleEndian.ofNat 4 magic ++ 0xA0 :: (LittleEndian.ofNat 4 data.length ++
      ((Matches.ofBytes minLength data).1.flatMap runBlocks ++
        (Bytes.pieces (pieceLimit - 1) (Matches.ofBytes minLength data).2).flatMap
          (storedBlock false) ++ storedBlock true [])) := by
    simp only [encode, List.append_assoc, List.cons_append]
  obtain ⟨fuel, hfuel⟩ : ∃ fuel, (encode data).length + 1 = fuel + 2 := by
    refine ⟨(encode data).length - 1, ?_⟩
    have : (encode data).length ≠ 0 := by
      rw [hencode, List.length_append, LittleEndian.length_ofNat]; omega
    omega
  rw [decode, hfuel, hencode, decodeFrames_frame fuel hdata hblocks]
  rfl

end Zstd
end Locksmith
