import Cki.LauncherRanges
import Cki.Run
import Cki.Scan

/-! `load_kernel_image`: the segment file is scanned line by line, and each segment that it names
is read from the image into the first block. What `pread` answers is given. -/
namespace Cki.Launcher

open Bytes Scan

/-- `pkm_pkernel_segment` -/
structure Segment where
  base : Word
  size : Word
  paddr : Word
  deriving DecidableEq, Repr

/-- "0x%lx 0x%lx 0x%lx\n" -/
def segFormat : List Directive :=
  [.literal 0x30,.literal 0x78,.hex,.space,.literal 0x30,.literal 0x78,.hex,.space,
    .literal 0x30,.literal 0x78,.hex,.space]

/-- A field that is not converted keeps the value of the line before. -/
def Segment.assign (seg : Segment) : List Word → Segment
  | [] => seg
  | [base] => { seg with base := base }
  | [base,size] => { seg with base := base, size := size }
  | base :: size :: paddr :: _ => ⟨base,size,paddr⟩

/-- The image, and what `pread` answers when a segment is read. -/
structure Image where
  bytes : List Byte
  pread : Segment → Word

/-- Where the loop has got: what is left of the segment file, `seg`, the launcher's memory, and
the ranges it has written. -/
structure Loader where
  file : List Byte
  seg : Segment
  memory : Memory
  copies : List (Word × Nat)

/-- The call returns, or it ends the launcher. -/
inductive Load where
  | returns (s : Loader)
  | exits (s : Loader)

def Load.copies : Load → List (Word × Nat)
  | .returns s => s.copies
  | .exits s => s.copies

section
variable (virtBase : Word) (image : Image)

/-- The bytes of the image that a segment names, as far as the image has them. -/
def Image.part (seg : Segment) : List Byte := (image.bytes.drop seg.base.toNat).take seg.size.toNat

def Image.copied (seg : Segment) : Nat := if image.pread seg = -1 then 0 else (image.pread seg).toNat

/-- `r` is an int, and is compared with an unsigned long. -/
def Image.Full (seg : Segment) : Prop := ((image.pread seg).setWidth 32).signExtend 64 = seg.size

instance : DecidablePred image.Full := fun seg => inferInstanceAs (Decidable (_ = seg.size))

def Loader.read (s : Loader) (seg : Segment) (rest : List Byte) : Loader where
  file := rest
  seg := seg
  memory := copy s.memory (virtBase + seg.paddr) ((image.part seg).take (image.copied seg))
  copies := s.copies ++ [(virtBase + seg.paddr,image.copied seg)]

/-- The loop, for a number of iterations. -/
def loadKernelImage : Nat → Loader → Option Load
  | 0, _ => none
  | n + 1, s =>
    let scanned := scan segFormat s.file
    if scanned.Eof then some (.returns s)
    else
      let seg := s.seg.assign scanned.values
      if image.Full seg then loadKernelImage n (s.read virtBase image seg scanned.rest)
      else some (.exits (s.read virtBase image seg scanned.rest))

end

/-- What `pread` is documented to do: it answers -1, or the number of bytes of the image that it
has read, of which there are not more than it reads at once. -/
structure Image.Documented (image : Image) : Prop where
  small : image.bytes.length < 2 ^ 63
  answers : ∀ seg, image.pread seg = -1 ∨
    (image.pread seg).toNat ≤ 0x7ffff000 ∧ (image.pread seg).toNat ≤ (image.part seg).length

/-- A file of segment lines. -/
inductive WellFormed : List Byte → List Segment → Prop where
  | nil : WellFormed [] []
  | line {file rest : List Byte} {base size paddr : Word} {segs : List Segment} :
      Plain segFormat file [base,size,paddr] rest → WellFormed rest segs →
      WellFormed file (⟨base,size,paddr⟩ :: segs)

/-- The image has the segments, and they have been copied one after the other. -/
def Held (virtBase : Word) (image : Image) (memory memory' : Memory) (segs : List Segment) : Prop :=
  (∀ seg ∈ segs, (image.part seg).length = seg.size.toNat) ∧
    memory' = segs.foldl
      (fun memory seg => copy memory (virtBase + seg.paddr) (image.part seg)) memory

/-- A call that returns has loaded the segments of a file that consists of such lines. -/
def Load.Exact (virtBase : Word) (image : Image) (file : List Byte) (memory : Memory) : Load → Prop
  | .returns s => ∃ segs, WellFormed file segs ∧ Held virtBase image memory s.memory segs
  | .exits _ => True

/-- The call ends, writes to the block only, and is exact. -/
def LoadsExactly (virtBase : Word) (image : Image) (file : List Byte) (seg : Segment)
    (memory : Memory) : Prop :=
  ∃ n load, loadKernelImage virtBase image n ⟨file,seg,memory,[]⟩ = some load ∧
    (∀ range ∈ load.copies, Inside virtBase blockBytes range.1 (· < range.2)) ∧
    load.Exact virtBase image file memory

/-- The scan of one line, as a step that is labelled with the segment it leaves. -/
def ScanStep (s : List Byte × Segment) (seg : Segment) (t : List Byte × Segment) : Prop :=
  ¬ (scan segFormat s.1).Eof ∧ seg = s.2.assign (scan segFormat s.1).values ∧
    t = ((scan segFormat s.1).rest,seg)

def Image.Fits (image : Image) (seg : Segment) : Prop :=
  image.copied seg = 0 ∨ seg.paddr.toNat + image.copied seg ≤ blockBytes

/-- Some segment that is scanned is not read in full, and what is read up to it fits. -/
def Refused (image : Image) (file : List Byte) (seg : Segment) : Prop :=
  ∃ segs last t, Run ScanStep (file,seg) (segs ++ [last]) t ∧ (∀ seg ∈ segs, image.Full seg) ∧
    ¬ image.Full last ∧ ∀ seg ∈ segs ++ [last], image.Fits seg

/-- The file consists of segment lines, each of which is read in full and fits. -/
def Accepted (image : Image) (file : List Byte) : Prop :=
  ∃ segs, WellFormed file segs ∧
    ∀ seg ∈ segs, image.Full seg ∧ seg.size ≠ -1 ∧ image.Fits seg

variable {virtBase : Word} {image : Image}

/-! The loop by the segments that it scans. -/

theorem scanStep_functional (s : List Byte × Segment) (seg : Segment) (t : List Byte × Segment)
    (seg' : Segment) (t' : List Byte × Segment) (step : ScanStep s seg t) (step' : ScanStep s seg' t') :
    seg = seg' ∧ t = t' := by
  obtain ⟨_,rfl,rfl⟩ := step
  obtain ⟨_,rfl,rfl⟩ := step'
  exact ⟨rfl,rfl⟩

/-- The loader after these segments have been read. -/
def Loader.after (virtBase : Word) (image : Image) (s : Loader) (segs : List Segment)
    (t : List Byte × Segment) : Loader where
  file := t.1
  seg := t.2
  memory := segs.foldl (fun memory seg =>
    copy memory (virtBase + seg.paddr) ((image.part seg).take (image.copied seg))) s.memory
  copies := s.copies ++ segs.map fun seg => (virtBase + seg.paddr,image.copied seg)

theorem read_after (s : Loader) (seg : Segment) (rest : List Byte) (segs : List Segment)
    (t : List Byte × Segment) : (s.read virtBase image seg rest).after virtBase image segs t =
      s.after virtBase image (seg :: segs) t := by
  simp only [Loader.after,Loader.read,List.foldl_cons,List.map_cons,List.append_assoc,
    List.singleton_append]

theorem after_nil (s : Loader) : s.after virtBase image [] (s.file,s.seg) = s := by
  simp only [Loader.after,List.foldl_nil,List.map_nil,List.append_nil]

theorem read_eq_after (s : Loader) (seg : Segment) (rest : List Byte) :
    s.read virtBase image seg rest = s.after virtBase image [seg] (rest,seg) := rfl

section
variable (virtBase : Word) (image : Image)

theorem load_eof {s : Loader} (eof : (scan segFormat s.file).Eof) (n : Nat) :
    loadKernelImage virtBase image (n + 1) s = some (.returns s) := by
  rw [loadKernelImage]
  exact if_pos eof

theorem load_step {s : Loader} {seg : Segment} {t : List Byte × Segment}
    (step : ScanStep (s.file,s.seg) seg t) (n : Nat) :
    t = (t.1,seg) ∧ loadKernelImage virtBase image (n + 1) s =
      if image.Full seg then loadKernelImage virtBase image n (s.read virtBase image seg t.1)
      else some (.exits (s.read virtBase image seg t.1)) := by
  obtain ⟨more,rfl,rfl⟩ := step
  refine ⟨rfl,?_⟩
  rw [loadKernelImage]
  exact if_neg more

/-- Segments that are read in full are passed one after the other. -/
theorem load_run {s : Loader} {segs : List Segment} {t : List Byte × Segment}
    (run : Run ScanStep (s.file,s.seg) segs t) (full : ∀ seg ∈ segs, image.Full seg) (n : Nat) :
    loadKernelImage virtBase image (segs.length + n) s =
      loadKernelImage virtBase image n (s.after virtBase image segs t) := by
  induction segs generalizing s with
  | nil =>
    cases run
    rw [after_nil,List.length_nil,Nat.zero_add]
  | cons seg segs ih =>
    cases run with
    | @cons _ u _ _ _ head tail =>
      obtain ⟨state,step⟩ := load_step virtBase image head (segs.length + n)
      rw [List.length_cons,Nat.add_right_comm,step,if_pos (full seg List.mem_cons_self)]
      rw [state] at tail
      rw [ih tail fun seg member => full seg (List.mem_cons_of_mem _ member),read_after]

end

/-- How the loop ends. -/
inductive Ends (virtBase : Word) (image : Image) (s : Loader) : Load → Prop where
  | returns {segs : List Segment} {t : List Byte × Segment} :
      Run ScanStep (s.file,s.seg) segs t → (∀ seg ∈ segs, image.Full seg) →
      (scan segFormat t.1).Eof → Ends virtBase image s (.returns (s.after virtBase image segs t))
  | exits {segs : List Segment} {last : Segment} {t : List Byte × Segment} :
      Run ScanStep (s.file,s.seg) (segs ++ [last]) t → (∀ seg ∈ segs, image.Full seg) →
      ¬ image.Full last → Ends virtBase image s (.exits (s.after virtBase image (segs ++ [last]) t))

theorem load_ends {n : Nat} {s : Loader} {load : Load}
    (loads : loadKernelImage virtBase image n s = some load) : Ends virtBase image s load := by
  induction n generalizing s with
  | zero => cases loads
  | succ n ih =>
    by_cases eof : (scan segFormat s.file).Eof
    · rw [load_eof virtBase image eof] at loads
      cases loads
      have none : Ends virtBase image s _ := .returns (.nil (s.file,s.seg)) nofun eof
      rwa [after_nil] at none
    · have step : ScanStep (s.file,s.seg) _ _ := ⟨eof,rfl,rfl⟩
      rw [(load_step virtBase image step n).2] at loads
      split at loads
      · rename_i full
        cases ih loads with
        | returns run all ends =>
          rw [read_after]
          refine .returns (.cons step run) ?_ ends
          exact List.forall_mem_cons.mpr ⟨full,all⟩
        | exits run all short =>
          rw [read_after,← List.cons_append]
          refine .exits (.cons step run) ?_ short
          exact List.forall_mem_cons.mpr ⟨full,all⟩
      · rename_i short
        cases loads
        rw [read_eq_after,← List.nil_append [_]]
        exact .exits (.single step) nofun short

/-! What is read. -/

/-- The conversions of the answer do not change it. -/
theorem full_iff (documented : image.Documented) (seg : Segment) :
    image.Full seg ↔ image.pread seg = seg.size := by
  have kept : ((image.pread seg).setWidth 32).signExtend 64 = image.pread seg := by
    rcases documented.answers seg with failed | ⟨small,_⟩
    · rw [failed]
      decide
    · have low : ((image.pread seg).setWidth 32).toNat = (image.pread seg).toNat := by
        rw [BitVec.toNat_setWidth]
        omega
      have positive : ((image.pread seg).setWidth 32).msb = false := by
        rw [BitVec.msb_eq_false_iff_two_mul_lt,low]
        omega
      rw [BitVec.signExtend_eq_setWidth_of_msb_false positive]
      apply BitVec.eq_of_toNat_eq
      rw [BitVec.toNat_setWidth,low]
      omega
  rw [Image.Full,kept]

/-- A segment read in full is copied as the image has it. -/
theorem full_part (documented : image.Documented) {seg : Segment} (full : image.Full seg)
    (possible : seg.size ≠ -1) : (image.part seg).length = seg.size.toNat ∧
      (image.part seg).take (image.copied seg) = image.part seg := by
  have answer := (full_iff documented seg).mp full
  have length : (image.part seg).length ≤ seg.size.toNat := List.length_take_le _ _
  rcases documented.answers seg with failed | ⟨_,has⟩
  · exact absurd (answer.symm.trans failed) possible
  · rw [answer] at has
    have copied : image.copied seg = seg.size.toNat := by
      rw [Image.copied,answer,if_neg possible]
    rw [copied]
    exact ⟨Nat.le_antisymm length has,List.take_of_length_le length⟩

theorem copies_part (documented : image.Documented) {segs : List Segment}
    (all : ∀ seg ∈ segs, image.Full seg ∧ seg.size ≠ -1 ∧ image.Fits seg) (memory : Memory) :
    segs.foldl (fun memory seg =>
        copy memory (virtBase + seg.paddr) ((image.part seg).take (image.copied seg))) memory =
      segs.foldl (fun memory seg => copy memory (virtBase + seg.paddr) (image.part seg)) memory := by
  induction segs generalizing memory with
  | nil => rfl
  | cons seg segs ih =>
    obtain ⟨⟨full,possible,_⟩,rest⟩ := List.forall_mem_cons.mp all
    rw [List.foldl_cons,List.foldl_cons,(full_part documented full possible).2,ih rest]

/-- The image has no segment of the size to which -1 compares equal. -/
theorem part_possible (documented : image.Documented) {seg : Segment}
    (has : (image.part seg).length = seg.size.toNat) : seg.size ≠ -1 := by
  intro all
  have small := documented.small
  have most : (image.part seg).length ≤ image.bytes.length := by
    rw [Image.part,List.length_take,List.length_drop]
    omega
  have size : (-1 : Word).toNat = 2 ^ 64 - 1 := by decide
  rw [has,all,size] at most
  omega

theorem inside_copy_iff (fits : virtBase.toNat + blockBytes ≤ 2 ^ 64) (seg : Segment) :
    Inside virtBase blockBytes (virtBase + seg.paddr) (· < image.copied seg) ↔ image.Fits seg := by
  have offset : virtBase + seg.paddr - virtBase = seg.paddr := by grind
  rw [inside_iff fits (by decide) (inTurn_below _),offset,EndsWithin,Image.Fits]
  omega

theorem wellFormed_run {file : List Byte} {segs : List Segment} (wellFormed : WellFormed file segs)
    (seg : Segment) : ∃ last, Run ScanStep (file,seg) segs ([],last) := by
  induction wellFormed generalizing seg with
  | nil => exact ⟨seg,.nil _⟩
  | @line file rest base size paddr segs plain _ ih =>
    obtain ⟨last,run⟩ := ih ⟨base,size,paddr⟩
    have step : ScanStep (file,seg) ⟨base,size,paddr⟩ (rest,⟨base,size,paddr⟩) := by
      rw [ScanStep,plain.scan]
      exact ⟨fun eof => (nomatch eof.1),rfl,rfl⟩
    exact ⟨last,.cons step run⟩

theorem empty_eof : (scan segFormat []).Eof := ⟨rfl,rfl⟩

theorem eof_stuck {t : List Byte × Segment} (eof : (scan segFormat t.1).Eof) (seg : Segment)
    (u : List Byte × Segment) : ¬ ScanStep t seg u := fun step => step.1 eof

/-! The whole call. -/

/-- The ranges that are written. -/
theorem copies_inside_iff (fits : virtBase.toNat + blockBytes ≤ 2 ^ 64) (file : List Byte)
    (seg : Segment) (memory : Memory) (segs : List Segment) (t : List Byte × Segment) :
    (∀ range ∈ (Loader.after virtBase image ⟨file,seg,memory,[]⟩ segs t).copies,
      Inside virtBase blockBytes range.1 (· < range.2)) ↔ ∀ seg ∈ segs, image.Fits seg := by
  simp only [Loader.after,List.nil_append,List.forall_mem_map,inside_copy_iff fits]

theorem accepted_of_returns (documented : image.Documented) {file : List Byte} {seg : Segment}
    {memory : Memory} {segs : List Segment} {t : List Byte × Segment}
    (run : Run ScanStep (file,seg) segs t) (full : ∀ seg ∈ segs, image.Full seg)
    (eof : (scan segFormat t.1).Eof) (fit : ∀ seg ∈ segs, image.Fits seg) {memory' : Memory}
    {listed : List Segment} (wellFormed : WellFormed file listed)
    (held : Held virtBase image memory memory' listed) : Accepted image file := by
  obtain ⟨last,run'⟩ := wellFormed_run wellFormed seg
  obtain ⟨rfl,_⟩ := run.unique_of_stuck scanStep_functional run' (eof_stuck eof) (eof_stuck empty_eof)
  refine ⟨segs,wellFormed,fun seg member => ⟨full seg member,?_,fit seg member⟩⟩
  exact part_possible documented (held.1 seg member)

theorem returns_of_accepted (documented : image.Documented)
    (fits : virtBase.toNat + blockBytes ≤ 2 ^ 64) {file : List Byte} (seg : Segment) (memory : Memory)
    (accepted : Accepted image file) : LoadsExactly virtBase image file seg memory := by
  obtain ⟨segs,wellFormed,all⟩ := accepted
  obtain ⟨last,run⟩ := wellFormed_run wellFormed seg
  have full : ∀ seg ∈ segs, image.Full seg := fun seg member => (all seg member).1
  have passes := load_run virtBase image (s := ⟨file,seg,memory,[]⟩) run full 1
  refine ⟨_,_,passes.trans (load_eof virtBase image empty_eof 0),?_,segs,wellFormed,?_,?_⟩
  · exact (copies_inside_iff fits file seg memory segs _).mpr fun seg member => (all seg member).2.2
  · intro seg member
    exact (full_part documented (full seg member) (all seg member).2.1).1
  · exact copies_part documented all memory

theorem exits_of_refused (fits : virtBase.toNat + blockBytes ≤ 2 ^ 64) {file : List Byte}
    {seg : Segment} (memory : Memory) (refused : Refused image file seg) :
    LoadsExactly virtBase image file seg memory := by
  obtain ⟨segs,last,t,run,full,short,fit⟩ := refused
  obtain ⟨middle,before,final⟩ := run.split
  have passes := load_run virtBase image (s := ⟨file,seg,memory,[]⟩) before full 1
  cases final with
  | cons step tail =>
    have next := load_step virtBase image
      (s := Loader.after virtBase image ⟨file,seg,memory,[]⟩ segs middle) step 0
    rw [next.2,if_neg short] at passes
    refine ⟨_,_,passes,?_,trivial⟩
    have copies := (copies_inside_iff fits file seg memory (segs ++ [last]) t).mpr fit
    simpa only [Load.copies,Loader.read,Loader.after,List.map_append,List.map_cons,List.map_nil,
      List.append_assoc] using copies

/-- The call ends, stays in the block and is exact if a segment that is not read in full ends it
before anything is written elsewhere, or the file is made of lines whose segments are in the image
and fit, and not otherwise. -/
theorem loadsExactly_iff (documented : image.Documented)
    (fits : virtBase.toNat + blockBytes ≤ 2 ^ 64) (file : List Byte) (seg : Segment)
    (memory : Memory) :
    LoadsExactly virtBase image file seg memory ↔ Refused image file seg ∨ Accepted image file := by
  constructor
  · rintro ⟨n,load,loads,inside,exact'⟩
    cases load_ends loads with
    | returns run full eof =>
      obtain ⟨listed,wellFormed,held⟩ := exact'
      have fit := (copies_inside_iff fits file seg memory _ _).mp inside
      exact .inr (accepted_of_returns documented run full eof fit wellFormed held)
    | exits run full short =>
      have fit := (copies_inside_iff fits file seg memory _ _).mp inside
      exact .inl ⟨_,_,_,run,full,short,fit⟩
  · rintro (refused | accepted)
    · exact exits_of_refused fits memory refused
    · exact returns_of_accepted documented fits seg memory accepted

/-! A line that is not a segment's. -/

/-- Nothing of the line is read, and the segment before it is read again. -/
theorem stuck_loops {file : List Byte} {seg : Segment}
    (stuck : scan segFormat file = ⟨[],file,.matchingFailure⟩) (full : image.Full seg) (n : Nat)
    (memory : Memory) (copies : List (Word × Nat)) :
    loadKernelImage virtBase image n ⟨file,seg,memory,copies⟩ = none := by
  induction n generalizing memory copies with
  | zero => rfl
  | succ n ih =>
    have step : ScanStep (file,seg) seg (file,seg) := by
      rw [ScanStep,stuck]
      exact ⟨fun eof => (nomatch eof.1),rfl,rfl⟩
    rw [(load_step virtBase image step n).2,if_pos full]
    exact ih _ _

/-- A segment's line, by the digits of the three fields. -/
def segLine (base size paddr rest : List Byte) : List Byte :=
  0x30 :: 0x78 :: (base ++ ([0x20] ++ (0x30 :: 0x78 :: (size ++ ([0x20] ++
    (0x30 :: 0x78 :: (paddr ++ ([0x0a] ++ rest))))))))

def Digits (digits : List Byte) : Prop :=
  digits ≠ [] ∧ (∀ char ∈ digits, isHexDigit char = true) ∧ hexValue digits < 2 ^ 64

instance : DecidablePred Digits := fun _ => inferInstanceAs (Decidable (_ ∧ _))

theorem segLine_plain {base size paddr rest : List Byte} (first : Digits base) (second : Digits size)
    (third : Digits paddr) (next : Follows (isSpace · = false) rest) :
    Plain segFormat (segLine base size paddr rest)
      [BitVec.ofNat 64 (hexValue base),BitVec.ofNat 64 (hexValue size),
        BitVec.ofNat 64 (hexValue paddr)] rest := by
  have field {digits input : List Byte} {blank : Byte} {format : List Directive} {values : List Word}
      (number : Digits digits) (space : isSpace blank = true) (stops : Follows (isSpace · = false) input)
      (plain : Plain format input values rest) :
      Plain (.literal 0x30 :: .literal 0x78 :: .hex :: .space :: format)
        (0x30 :: 0x78 :: (digits ++ ([blank] ++ input)))
        (BitVec.ofNat 64 (hexValue digits) :: values) rest := by
    refine .literal _ (.literal _ (.hex digits number.1 number.2.1 number.2.2 ?_ (.space [blank] ?_ stops plain)))
    · rintro _ ⟨⟩
      exact space
    · exact List.forall_mem_singleton.mpr space
  have zero (input : List Byte) : Follows (isSpace · = false) (0x30 :: input) := by
    rintro _ ⟨⟩
    decide
  exact field first rfl (zero _) (field second rfl (zero _) (field third rfl next (.nil rest)))

/-- `pread` where every page of the launcher's memory can be written. -/
def plainRead (bytes : List Byte) : Image where
  bytes := bytes
  pread seg :=
    if 2 ^ 63 ≤ seg.base.toNat ∨ 2 ^ 63 ≤ seg.size.toNat then -1
    else BitVec.ofNat 64 (min ((bytes.drop seg.base.toNat).take seg.size.toNat).length 0x7ffff000)

theorem plainRead_documented {bytes : List Byte} (small : bytes.length < 2 ^ 63) :
    (plainRead bytes).Documented where
  small := small
  answers seg := by
    dsimp only [plainRead,Image.part]
    split
    · exact .inl rfl
    · right
      rw [BitVec.toNat_ofNat]
      omega

/-- The line "0x1 0x2 0x1000". -/
def twoBytes (rest : List Byte) : List Byte := segLine [0x31] [0x32] [0x31,0x30,0x30,0x30] rest

theorem twoBytes_plain {rest : List Byte} (next : Follows (isSpace · = false) rest) :
    Plain segFormat (twoBytes rest) [1,2,0x1000] rest :=
  segLine_plain (by decide) (by decide) (by decide) next

/-- The two bytes behind the first of an image. -/
theorem twoBytes_loaded : LoadsExactly 0x7f0000000000 (plainRead [0x41,0x42,0x43]) (twoBytes [])
    ⟨0,0,0⟩ (fun _ => 0) := by
  refine (loadsExactly_iff (plainRead_documented (by decide)) (by decide) _ _ _).mpr (.inr ?_)
  refine ⟨[⟨1,2,0x1000⟩],.line (twoBytes_plain nofun) .nil,List.forall_mem_singleton.mpr ?_⟩
  exact ⟨by decide,by decide,.inr (by decide)⟩

/-- A letter behind the line. -/
theorem letter_loops : ¬ ∀ (virtBase : Word) (image : Image) (file : List Byte) (seg : Segment)
    (memory : Memory), image.Documented → virtBase.toNat + blockBytes ≤ 2 ^ 64 →
    LoadsExactly virtBase image file seg memory := by
  intro claim
  obtain ⟨n,load,loads,_⟩ := claim 0x7f0000000000 (plainRead [0x41,0x42,0x43]) (twoBytes [0x7a]) ⟨0,0,0⟩
    (fun _ => 0) (plainRead_documented (by decide)) (by decide)
  have next : Follows (isSpace · = false) [0x7a] := by
    rintro _ ⟨⟩
    decide
  have step : ScanStep (twoBytes [0x7a],⟨0,0,0⟩) ⟨1,2,0x1000⟩ ([0x7a],⟨1,2,0x1000⟩) := by
    rw [ScanStep,(twoBytes_plain next).scan]
    exact ⟨fun eof => (nomatch eof.1),rfl,rfl⟩
  have full : (plainRead [0x41,0x42,0x43]).Full ⟨1,2,0x1000⟩ := by decide
  cases n with
  | zero => cases loads
  | succ n =>
    have stuck : scan segFormat [0x7a] = ⟨[],[0x7a],.matchingFailure⟩ := by decide
    rw [(load_step _ _ step n).2,if_pos full,Loader.read,stuck_loops stuck full] at loads
    cases loads

end Cki.Launcher
