import Locksmith.Proofs.Database.Matching
import Locksmith.Proofs.Database.Privacy
import Locksmith.Proofs.Lock.Acceptance
import Locksmith.Proofs.Lock.RoundTrip

namespace Locksmith
namespace Assembly

/-- The offsets in the text of a lock do not get into its program. -/
theorem write_erase (key : Key) (pool : List Bytes) (labels : Nat) :
    write key.erase pool labels = write key pool labels := by
  induction key generalizing pool labels with
  | and pos left right ihl ihr => simp only [Key.erase, write, ihl, ihr, Key.isOr_erase]
  | or pos left right ihl ihr => simp only [Key.erase, write, ihl, ihr]
  | not pos operand ih => simp only [Key.erase, write, ih, Key.isOr_erase, Key.isAnd_erase]
  | _ => rfl

theorem ofKey_erase (key : Key) : ofKey (some key.erase) = ofKey (some key) := by
  rw [ofKey, ofKey, (Key.Alike.erase key).objects, write_erase]

end Assembly

theorem Key.lockNames_erase (key : Key) : key.erase.lockNames = key.lockNames := by
  induction key with
  | and pos left right ihl ihr => rw [erase, lockNames, lockNames, ihl, ihr]
  | or pos left right ihl ihr => rw [erase, lockNames, lockNames, ihl, ihr]
  | not pos operand ih => exact ih
  | _ => rfl

namespace Grammar

open Escape

variable {ctx : ParseContext} {level : Level} {last : Bool} {pos : Nat} {s : Bytes} {key : Key}

theorem Leads.means {text lock : Bytes} {d : Dbref} (h : Leads ctx text d lock) :
    (∃ object, Means ctx object d) ∧ lock ≠ [] := by
  cases h with
  | named _ _ _ hne hd => exact ⟨⟨_, hd⟩, mt unescape_eq_nil.1 hne⟩
  | unnamed _ _ _ hne hd => exact ⟨⟨_, hd⟩, hne⟩
  | alone _ _ hne hd => exact ⟨⟨_, hd⟩, hne⟩

/-- Each object of a key is what some text means. -/
theorem Leaf.means (h : Leaf ctx pos s key) :
    ∀ d ∈ Assembly.objects key, ∃ object, Means ctx object d := by
  cases h with
  | key atom first spells =>
    cases spells with
    | const h => exact List.forall_mem_singleton.2 ⟨_, h.means⟩
    | bool | attr | eval | flagClass => exact List.forall_mem_nil _
  | indirect blank atom first leads => exact List.forall_mem_singleton.2 leads.means.1
  | object takes blank atom first names =>
    cases takes with
    | is | carry | owner => exact List.forall_mem_singleton.2 ⟨_, names.means⟩

theorem Leaf.lockNames (h : Leaf ctx pos s key) : ∀ name ∈ key.lockNames, name ≠ [] := by
  cases h with
  | key atom first spells =>
    cases spells with
    | bool | const | attr | eval | flagClass => exact List.forall_mem_nil _
  | indirect blank atom first leads => exact List.forall_mem_singleton.2 leads.means.2
  | object takes blank atom first names =>
    cases takes with
    | is | carry | owner => exact List.forall_mem_nil _

theorem Derives.means (h : Derives ctx level last pos s key) :
    ∀ d ∈ Assembly.objects key, ∃ object, Means ctx object d := by
  induction h with
  | leaf blank leaf trailing closed => exact leaf.means
  | group blank inner trailing ih => exact ih
  | not blank operand ih => exact ih
  | oneAnd one ih => exact ih
  | and first more ihl ihr => exact List.forall_mem_append.2 ⟨ihl, ihr⟩
  | oneOr one ih => exact ih
  | or first more ihl ihr => exact List.forall_mem_append.2 ⟨ihl, ihr⟩

theorem Derives.lockNames (h : Derives ctx level last pos s key) :
    ∀ name ∈ key.lockNames, name ≠ [] := by
  induction h with
  | leaf blank leaf trailing closed => exact leaf.lockNames
  | group blank inner trailing ih => exact ih
  | not blank operand ih => exact ih
  | oneAnd one ih => exact ih
  | and first more ihl ihr => exact List.forall_mem_append.2 ⟨ihl, ihr⟩
  | oneOr one ih => exact ih
  | or first more ihl ihr => exact List.forall_mem_append.2 ⟨ihl, ihr⟩

end Grammar

/-- Texts that spell one key in different ways have the same code. -/
theorem Lock.compileWith_spellAs {ctx : ParseContext} {key : Key} {shown : Dbref → Bytes}
    {a : Assembly} (hsound : key.Sound ctx.knows true)
    (hshown : ∀ d ∈ Assembly.objects key, Parser.Denotes ctx (shown d) d)
    (ha : Assembly.ofKey (some key.erase.reassoc) = .ok a) :
    compileWith ctx (key.spellAs shown) = .ok (some a.threadJumps.bytes) := by
  obtain ⟨key', hparse, herase⟩ := Parser.parse_spellAs shown hshown hsound
  apply compileWith_eq hparse
  rw [← Assembly.ofKey_erase, herase, ha]

namespace Database
namespace Store

open Escape

variable {s : Store} {player d : Dbref} {lockType source : Bytes}

def typingContext (s : Store) (player : Dbref) (lockType : Bytes) : ParseContext :=
  ⟨some s.matchObject, some s.settings.classes.contains, player, lockType, false⟩

theorem Numbered.isValid_of_means (h : s.Numbered) {text : Bytes}
    (hd : Grammar.Means (s.typingContext player lockType) text d) : s.isValid d = true := by
  cases hd with
  | number mode =>
    rcases mode with hmode | hmode
    · cases hmode
    · cases hmode
  | name find mode found one fits =>
    cases mode.2
    rw [← found] at one ⊢
    rcases h.matchObject player (unescape text) with hvalid | hfailed
    · exact hvalid
    · rcases hfailed with hnothing | hambiguous | hmissed
      · exact absurd hnothing one.2.1
      · exact absurd hambiguous one.1
      · exact absurd hmissed one.2.2

theorem resolve_typed {text : Bytes} (hvalid : s.isValid d = true)
    (hfits : d.fitsOperand = true) (hplain : unescape text = text)
    (hfound : s.matchObject player text = d) (c : Parser.Cursor) :
    ∃ asked, Parser.resolve (s.typingContext player lockType) c text = .ok (d, asked) := by
  have hnumber : d.isSentinel = false := by simpa using (Bool.and_eq_true_iff.1 hvalid).1
  have hne {d' : Dbref} (hd' : d'.isSentinel = true) : d ≠ d' := by
    rintro rfl
    rw [hnumber] at hd'
    cases hd'
  apply Grammar.resolve_iff.2
  refine .name s.matchObject ⟨rfl, rfl⟩ ?_ ⟨hne rfl, hne rfl, hne rfl⟩ hfits
  rw [hplain]
  exact hfound

theorem denotes_typed (hvalid : s.isValid d = true) (hfits : d.fitsOperand = true) :
    Parser.Denotes (s.typingContext player lockType) d.render d :=
  Parser.denotes_render
    (resolve_typed hvalid hfits (Parser.unescape_render d) (matchObject_render hvalid player))

theorem denotes_me (hvalid : s.isValid player = true) (hfits : player.fitsOperand = true) :
    Parser.Denotes (s.typingContext player lockType) "me" player := by
  obtain ⟨o, ho⟩ := get?_of_isValid hvalid
  refine ⟨⟨109, [101], rfl, rfl⟩, by decide +kernel, by decide +kernel, ?_⟩
  exact resolve_typed hvalid hfits rfl (matchObject_me ho)

theorem denotes_orMe (hvalid : s.isValid d = true) (hfits : d.fitsOperand = true)
    (names : Option (Dbref → Bytes)) :
    Parser.Denotes (s.typingContext player lockType)
      (Decompile.Style.object ⟨player, .dbrefsOrMe, names⟩ d) d := by
  change Parser.Denotes _ (if d == player then "me" else d.render) d
  by_cases hme : d = player
  · subst hme
    rw [beq_self_eq_true, if_pos rfl]
    exact denotes_me hvalid hfits
  · rw [beq_false_of_ne hme, if_neg Bool.false_ne_true]
    exact denotes_typed hvalid hfits

/-- A lock that a player has typed in is shown to the player by a text that can be typed in
again. Whether objects are shown by number or the player as `me`, the text has the same code,
and that does in every world what the code does. The names of other locks must be free of zero
bytes, which end a text in code, and code must be short enough for the offsets in it. -/
theorem compile_decompile (hs : s.Numbered) {code : Bytes}
    (hcode : s.compiler.compile source player lockType = .ok (some code)) (hzero : 0 ∉ source)
    (hnames : ∀ key, Key.parse (s.typingContext player lockType) source = .ok (some key) →
      ∀ name ∈ key.lockNames,
      (∀ b ∈ name, b ≠ 0 ∧ b ≠ backslash ∧ endsKey b = false) ∧ name.head?.any isSpace = false ∧
        name.getLast?.any isSpace = false)
    (hsize : code.length < 2 ^ 31) :
    ∃ code',
      (∀ viewer names, s.compiler.compile (LockCode.decompile (some code) viewer .dbrefs names)
        player lockType =
        .ok (some code')) ∧
      (∀ names, s.compiler.compile (LockCode.decompile (some code) player .dbrefsOrMe names)
        player lockType =
        .ok (some code')) ∧
      ∀ (m : Type → Type) [Monad m] [LawfulMonad m] (v : Machine m) (subject target : Dbref),
        v.evaluate (some code') subject target = v.evaluate (some code) subject target := by
  obtain ⟨key?, hparse, hkey⟩ := Lock.compileWith_eq_ok hcode
  cases key? with
  | none => cases hkey
  | some key =>
    have hderives := Grammar.parse_eq_some_iff.1 hparse
    have hlocks (name : Bytes) (hname : name ∈ key.lockNames) : Key.IsLockName name := by
      obtain ⟨hplain, hfirst, hlast⟩ := hnames key hparse name hname
      exact ⟨hderives.lockNames name hname, hplain, hfirst, hlast⟩
    have hsound := Parser.parse_sound hparse hzero hlocks
    have hvalid (d : Dbref) (hd : d ∈ Assembly.objects key) : s.isValid d = true := by
      obtain ⟨object, hmeans⟩ := hderives.means d hd
      exact hs.isValid_of_means hmeans
    obtain ⟨a, ha⟩ := Assembly.exists_ofKey hsound.objects
    obtain rfl : code = a.threadJumps.bytes :=
      Option.some.inj (Except.ok.inj (hcode.symm.trans (Lock.compileWith_eq hparse ha)))
    have halike : Key.Alike key key.erase.reassoc :=
      ((Key.Alike.reassoc _).trans (Key.Alike.erase key)).symm
    obtain ⟨a', ha'⟩ := Assembly.exists_ofKey (halike.objects ▸ hsound.objects)
    refine ⟨a'.threadJumps.bytes, ?_, ?_, ?_⟩
    · intro viewer names
      rw [LockCode.decompile_spellAs ha hsound.texts hsize]
      apply Lock.compileWith_spellAs hsound _ ha'
      exact fun d hd => denotes_typed (hvalid d hd) (hsound.objects d hd)
    · intro names
      rw [LockCode.decompile_spellAs ha hsound.texts hsize]
      apply Lock.compileWith_spellAs hsound _ ha'
      exact fun d hd => denotes_orMe (hvalid d hd) (hsound.objects d hd) names
    · intro m _ _ v subject target
      rw [Machine.evaluate, halike.run_eq ha ha' hsound.texts hsize v subject target]
      rfl

/-- A player `#1` that carries a thing named `Two`. -/
def holder : Store :=
  { empty .standard (.empty .memory .none) with
    slots := .ofList [(1, .live { Object.new 1 1 with contents := [2] }),
      (2, .live { Object.new 2 1 with name := [84, 119, 111] })] }

theorem numbered_of_two {a b : Object}
    (h : s.slots = (SortedMap.empty.insert 1 (.live a)).insert 2 (.live b))
    (ha : a.id = 1) (hb : b.id = 2) : s.Numbered := by
  intro d o ho
  rw [get?, h] at ho
  by_cases htwo : d = 2
  · rw [htwo, SortedMap.get?_insert_self] at ho
    cases ho
    exact ⟨hb.trans htwo.symm, by rw [htwo]; decide⟩
  · rw [SortedMap.get?_insert_of_ne _ _ htwo] at ho
    by_cases hone : d = 1
    · rw [hone, SortedMap.get?_insert_self] at ho
      cases ho
      exact ⟨ha.trans hone.symm, by rw [hone]; decide⟩
    · rw [SortedMap.get?_insert_of_ne _ _ hone] at ho
      cases ho

theorem holder_numbered : holder.Numbered := numbered_of_two rfl rfl rfl

/-- `=me&@tw/Use` is shown as `=#1&@#2/Use`, or as `=me&@#2/Use`. -/
theorem compile_decompile_named :
    ∃ code code', holder.compiler.compile [61, 109, 101, 38, 64, 116, 119, 47, 85, 115, 101] 1
      [] = .ok (some code) ∧
      LockCode.decompile (some code) 1 .dbrefs (some holder.name) =
        [61, 35, 49, 38, 64, 35, 50, 47, 85, 115, 101] ∧
      holder.compiler.compile [61, 35, 49, 38, 64, 35, 50, 47, 85, 115, 101] 1 [] =
        .ok (some code') ∧
      LockCode.decompile (some code) 1 .dbrefsOrMe (some holder.name) =
        [61, 109, 101, 38, 64, 35, 50, 47, 85, 115, 101] ∧
      holder.compiler.compile [61, 109, 101, 38, 64, 35, 50, 47, 85, 115, 101] 1 [] =
        .ok (some code') ∧
      ∀ v : Machine Id, v.evaluate (some code') 1 2 = v.evaluate (some code) 1 2 := by
  let shown (d : Dbref) : Bytes := if d = 1 then [109, 101] else [116, 119]
  have hme : Parser.Denotes (holder.typingContext 1 []) (shown 1) 1 :=
    denotes_me (by decide) (by decide)
  have htwo : Parser.Denotes (holder.typingContext 1 []) (shown 2) 2 := by
    refine ⟨⟨116, [119], rfl, rfl⟩, by decide +kernel, by decide +kernel, ?_⟩
    exact resolve_typed (by decide) (by decide) rfl (by decide +kernel)
  have huse : Key.IsLockName [85, 115, 101] :=
    ⟨List.cons_ne_nil _ _, by decide +kernel, rfl, rfl⟩
  let key : Key := .and 0 (.is 0 1) (.indirect 0 2 [85, 115, 101])
  have hobjects :
      ∀ d ∈ Assembly.objects key, Parser.Denotes (holder.typingContext 1 []) (shown d) d := by
    intro d hd
    rcases List.mem_pair.1 hd with rfl | rfl
    · exact hme
    · exact htwo
  have hsound : key.Sound (holder.typingContext 1 []).knows true := ⟨rfl, rfl, huse⟩
  obtain ⟨key', hparse, hkey⟩ := Parser.parse_spellAs shown hobjects hsound
  obtain ⟨a, ha⟩ : ∃ a, Assembly.ofKey (some key) = .ok a := ⟨_, rfl⟩
  have hcode :=
    Lock.compileWith_eq (a := a) hparse (by rw [← Assembly.ofKey_erase, hkey]; exact ha)
  have hsize : a.threadJumps.bytes.length < 2 ^ 31 := by
    rw [Assembly.length_bytes_ofKey ha]
    decide +kernel
  have hnumbers : LockCode.decompile (some a.threadJumps.bytes) 1 .dbrefs (some holder.name) =
      [61, 35, 49, 38, 64, 35, 50, 47, 85, 115, 101] := by
    rw [LockCode.decompile_spellAs ha hsound.texts hsize]
    decide +kernel
  have horMe : LockCode.decompile (some a.threadJumps.bytes) 1 .dbrefsOrMe (some holder.name) =
      [61, 109, 101, 38, 64, 35, 50, 47, 85, 115, 101] := by
    rw [LockCode.decompile_spellAs ha hsound.texts hsize]
    decide +kernel
  have hnames :
      ∀ k, Key.parse (holder.typingContext 1 []) (key.spellAs shown) = .ok (some k) →
        ∀ name ∈ k.lockNames,
      (∀ b ∈ name, b ≠ 0 ∧ b ≠ backslash ∧ endsKey b = false) ∧ name.head?.any isSpace = false ∧
        name.getLast?.any isSpace = false := by
    intro k hk
    rw [hparse] at hk
    cases hk
    rw [← Key.lockNames_erase, hkey]
    exact List.forall_mem_singleton.2 ⟨huse.plain, huse.first, huse.last⟩
  obtain ⟨code', htyped, htypedMe, heval⟩ :=
    compile_decompile holder_numbered hcode (by decide +kernel) hnames hsize
  refine ⟨_, code', hcode, hnumbers, ?_, horMe, ?_, fun v => heval Id v 1 2⟩
  · rw [← hnumbers]
    exact htyped 1 _
  · rw [← horMe]
    exact htypedMe _

/-- The name `Basic `, a zero byte and `b`. -/
def spacedName : Bytes := [66, 97, 115, 105, 99, 32, 0, 98]

/-- The code of an indirect key for that lock on `#1`. -/
def spacedCode : Bytes :=
  [3, 15, 0, 0, 0, 12, 1, 0, 0, 0, 0, 0, 0, 0, 0, 66, 97, 115, 105, 99, 32, 0, 98, 0]

theorem readOr_spacedName :
    Parser.readOr ((constantVault true).typingContext 1 spacedName) ⟨0, [64, 35, 49], []⟩ =
      .ok (.indirect 0 1 spacedName, ⟨3, [], [[35, 49]]⟩) := by
  rw [Parser.readOr, Parser.outcome_parseOr, Parser.outcome_parseAnd, Parser.outcome_parseNot]
  rfl

theorem decompile_spacedCode : LockCode.decompile (some spacedCode) 1 .dbrefs none =
    [64, 35, 49, 47, 66, 97, 115, 105, 99, 32] := by
  cbv

theorem readOr_shownName :
    Parser.readOr ((constantVault true).typingContext 1 spacedName)
      ⟨0, [64, 35, 49, 47, 66, 97, 115, 105, 99, 32], []⟩ =
        .ok (.indirect 0 1 defaultLock, ⟨10, [], [[35, 49]]⟩) := by
  rw [Parser.readOr, Parser.outcome_parseOr, Parser.outcome_parseAnd, Parser.outcome_parseNot]
  rfl

theorem evaluate_spacedCode (chunks : Chunk.Store) :
    (vault chunks).machine.evaluate (some spacedCode) 2 2 [] = (true, []) := by
  cbv

/-- Without the two conditions a shown lock is not the lock that is typed in again. The name of
a lock ends where it holds a zero byte, and the white space before that byte, which is within
the name, is at the end of what is shown: the open lock `Basic ` is typed in again as the
private lock `Basic`. And code that is too long is shown as corrupt, and a player of that name
is not there. -/
theorem compile_decompile_not_whole :
    (∃ (s : Store) (source lockType code code' : Bytes) (key : Key) (subject target : Dbref),
      s.Numbered ∧ s.compiler.compile source 1 lockType = .ok (some code) ∧ 0 ∉ source ∧
      Key.parse (s.typingContext 1 lockType) source = .ok (some key) ∧
      (∀ name ∈ key.lockNames, (∀ b ∈ name, b ≠ backslash ∧ endsKey b = false) ∧
        name.head?.any isSpace = false ∧ name.getLast?.any isSpace = false) ∧
      code.length < 2 ^ 31 ∧
      s.compiler.compile (LockCode.decompile (some code) 1 .dbrefs none) 1 lockType =
        .ok (some code') ∧
      s.machine.evaluate (some code) subject target [] = (true, []) ∧
      s.machine.evaluate (some code') subject target [] = (false, [])) ∧
    ∃ (source lockType code : Bytes) (key : Key) (e : CompileError),
      holder.compiler.compile source 1 lockType = .ok (some code) ∧ 0 ∉ source ∧
      Key.parse (holder.typingContext 1 lockType) source = .ok (some key) ∧ key.lockNames = [] ∧
      holder.compiler.compile (LockCode.decompile (some code) 1 .dbrefs none) 1 lockType =
        .error e := by
  constructor
  · have hparse := Parser.parse_of_outcome rfl readOr_spacedName rfl
    have hparse' := Parser.parse_of_outcome rfl readOr_shownName rfl
    refine ⟨constantVault true, [64, 35, 49], spacedName, spacedCode, knockCode,
      .indirect 0 1 spacedName, 2, 2, numbered_of_two rfl rfl rfl,
      Lock.compileWith_eq hparse rfl,
      by decide +kernel, hparse, ?_, by decide, ?_, evaluate_spacedCode _, ?_⟩
    · exact List.forall_mem_singleton.2 ⟨by decide +kernel, rfl, rfl⟩
    · rw [decompile_spacedCode]
      exact Lock.compileWith_eq hparse' rfl
    · have hknock := Machine.fst_transcribe (constantVault true).machine (some knockCode) 2 2
      rw [← hknock]
      exact congrArg (fun out : (Bool × List Mark) × List Event => (out.1.1, out.2))
        (transcribe_vault _)
  · obtain ⟨source, code, key, hcode, -, hzero, hparse, hlocks, hshown⟩ :=
      Lock.compileWith_longName (holder.typingContext 1 []) (n := 2 ^ 31) (by decide)
        (by decide)
    have hfail : Parser.readOr (holder.typingContext 1 []) ⟨0, corruptText, []⟩ =
        .error ⟨⟨0, .notHere corruptText⟩, [corruptText]⟩ := by
      rw [Parser.readOr, Parser.outcome_parseOr, Parser.outcome_parseAnd,
        Parser.outcome_parseNot]
      rfl
    have hcorrupt :
        Key.parse (holder.typingContext 1 []) corruptText =
          .error ⟨0, .notHere corruptText⟩ := by
      refine (Parser.parse_cons (b := 42) rfl).trans ?_
      rw [show Parser.readOr (holder.typingContext 1 []) ⟨0, 42 :: _, []⟩ = _ from hfail]
    refine ⟨source, [], code, key, .badText ⟨0, .notHere corruptText⟩, hcode, hzero, hparse,
      hlocks, ?_⟩
    rw [hshown]
    change Lock.compileWith (holder.typingContext 1 []) corruptText = _
    rw [Lock.compileWith, hcorrupt]

end Store
end Database
end Locksmith
