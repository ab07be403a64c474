import Mathlib.Data.BitVec
import Cki.Bytes
import Cki.Create
import Cki.CStrings

/-! The guest's command line. The launcher copies two of its own arguments into the arguments of
PKM_CREATE_CNTR, and `create_boot_params` prints them into the page that the guest boots with. -/
namespace Cki.Create

open Bytes CString Ledger Virtio

/-- `sizeof` of `ip` in `struct pkm_cntr_args`; `subcmd` lies right behind it and is as long. -/
def ipSize : Nat := 32

def commandLineSize : Nat := 2048

def ascii (s : String) : List Byte := s.toList.map fun c => BitVec.ofNat 8 c.toNat

/-- What `%lx` prints. -/
def hex (n : Word) : List Byte := (Nat.toDigits 16 n.toNat).map fun c => BitVec.ofNat 8 c.toNat

/-- `create_cntr` of the launcher, in what lies in `ip` and `subcmd` of its `args`. A string that
does not end in `ip` runs on into `subcmd`. -/
def createCntrStrings (junk ip subcmd : List Byte) : Option (List Byte) := do
  let args ← strcpy junk 0 ip
  strcpy args ipSize subcmd

def bootLine (cntr : Cntr) (initrdSize : Word) (ip subcmd : List Byte) : List Byte :=
  ascii "initrd=0x" ++ hex (pageToPhys cntr.initrdHpage) ++ ascii ",0x" ++ hex initrdSize ++
    ascii " rdinit=/bin/init ctrip=" ++ ip ++ ascii " subcmd=" ++ subcmd

def bootOptions : List Byte :=
  ascii " norandmaps nokaslr pci=off console=null acpi=off rodata=off" ++
    ascii " mce=off nmi_watchdog=0 nowatchdog nosoftlockup nopcid virtio_mmio.device=1K@0x10000:48"

/-- What `create_boot_params` writes to the page of the command line. `%s` reads `ip` and
`subcmd` up to a NUL, if need be through what lies behind `args` on the kernel's stack. -/
def fillCmdline (cntr : Cntr) (initrdSize : Word) (args behind cmdline : List Byte) :
    Option (List Byte) := do
  let ip ← text (args ++ behind)
  let subcmd ← text (args.drop ipSize ++ behind)
  strlcat (snprintf cmdline commandLineSize (bootLine cntr initrdSize ip subcmd))
    commandLineSize bootOptions

/-! What is printed. -/

theorem hex_length (n : Word) : (hex n).length ≤ 16 := by
  rw [hex,List.length_map,Nat.length_toDigits_le_iff (by decide) (by decide)]
  exact n.isLt

theorem toDigits_digits (n : Nat) : ∀ c ∈ Nat.toDigits 16 n, ∃ d < 16, c = Nat.digitChar d := by
  induction n using Nat.strongRecOn with
  | ind n ih =>
    intro c mem
    by_cases small : n < 16
    · rw [Nat.toDigits_of_lt_base small,List.mem_singleton] at mem
      exact ⟨n,small,mem⟩
    · rw [Nat.toDigits_of_base_le (by decide) (by omega),List.mem_append,List.mem_singleton] at mem
      rcases mem with mem | last
      · exact ih (n / 16) (by omega) c mem
      · exact ⟨n % 16,by omega,last⟩

theorem hex_whole (n : Word) : 0 ∉ hex n := by
  have digits : ∀ d < 16, BitVec.ofNat 8 (Nat.digitChar d).toNat ≠ 0 := by decide
  intro mem
  obtain ⟨c,mem,zero⟩ := List.mem_map.mp mem
  obtain ⟨d,small,rfl⟩ := toDigits_digits _ c mem
  exact digits d small zero

theorem bootOptions_whole : 0 ∉ bootOptions := by simp [bootOptions,ascii]

theorem bootOptions_length : bootOptions.length = 147 := by simp [bootOptions,ascii]

section
variable (cntr : Cntr) (initrdSize : Word) {ip subcmd : List Byte}

theorem bootLine_whole (ipWhole : 0 ∉ ip) (subcmdWhole : 0 ∉ subcmd) :
    0 ∉ bootLine cntr initrdSize ip subcmd := by
  simpa [bootLine,ascii] using
    ⟨hex_whole (pageToPhys cntr.initrdHpage),hex_whole initrdSize,ipWhole,subcmdWhole⟩

theorem bootLine_length_le (ip subcmd : List Byte) :
    (bootLine cntr initrdSize ip subcmd).length ≤ 80 + ip.length + subcmd.length := by
  have addr := hex_length (pageToPhys cntr.initrdHpage)
  have size := hex_length initrdSize
  simp only [bootLine,ascii,List.length_append,List.length_map]
  simp
  omega

/-- The page, whatever `args` and what lies behind it hold. -/
theorem fillCmdline_holds {args behind cmdline : List Byte} (room : commandLineSize ≤ cmdline.length)
    (ipText : text (args ++ behind) = some ip)
    (subcmdText : text (args.drop ipSize ++ behind) = some subcmd) :
    ∃ after, fillCmdline cntr initrdSize args behind cmdline = some after ∧
      Holds cmdline commandLineSize
        ((bootLine cntr initrdSize ip subcmd ++ bootOptions).take (commandLineSize - 1)) after := by
  have whole := bootLine_whole cntr initrdSize (text_eq_some.mp ipText).1 (text_eq_some.mp subcmdText).1
  have printed := snprintf_holds (by decide) room whole
  obtain ⟨after,added,holds⟩ := printed.strlcat room bootOptions_whole
  refine ⟨after,?_,?_⟩
  · simp only [fillCmdline,ipText,subcmdText,Option.bind_eq_bind,Option.bind_some,added]
  · rwa [take_append_take] at holds

/-- It is whole where the two strings are not too long. -/
theorem fillCmdline_text {args behind cmdline : List Byte} (room : commandLineSize ≤ cmdline.length)
    (ipText : text (args ++ behind) = some ip)
    (subcmdText : text (args.drop ipSize ++ behind) = some subcmd)
    (short : ip.length + subcmd.length < 1800) :
    ∃ after, fillCmdline cntr initrdSize args behind cmdline = some after ∧
      text after = some (bootLine cntr initrdSize ip subcmd ++ bootOptions) := by
  obtain ⟨after,filled,holds⟩ := fillCmdline_holds cntr initrdSize room ipText subcmdText
  refine ⟨after,filled,?_⟩
  have length := bootLine_length_le cntr initrdSize ip subcmd
  rw [holds.text,List.take_of_length_le]
  rw [List.length_append,bootOptions_length,commandLineSize]
  omega

/-! The launcher's strings. -/

/-- What the kernel reads as `ip`. -/
def seenIp (ip subcmd : List Byte) : List Byte :=
  if ip.length < ipSize then ip else ip.take ipSize ++ subcmd

theorem seenIp_eq_iff : seenIp ip subcmd = ip ↔ ip.length < ipSize ∨ ip.drop ipSize = subcmd := by
  rw [seenIp]
  split
  · simp [*]
  · rename_i long
    constructor
    · intro same
      have parts : ip.take ipSize ++ subcmd = ip.take ipSize ++ ip.drop ipSize :=
        same.trans (List.take_append_drop ipSize ip).symm
      exact .inr (List.append_cancel_left parts).symm
    · rintro (short | rfl)
      · exact absurd short long
      · exact List.take_append_drop ipSize ip

variable {junk args : List Byte}

theorem createCntrStrings_fits (copied : createCntrStrings junk ip subcmd = some args) :
    ip.length < junk.length ∧ ipSize + subcmd.length < junk.length := by
  obtain ⟨first,ipCopied,subcmdCopied⟩ := Option.bind_eq_some_iff.mp copied
  have ipFits := (strcpy_eq_some.mp ipCopied).1
  have subcmdFits := (strcpy_eq_some.mp subcmdCopied).1
  rw [strcpy_length ipCopied] at subcmdFits
  exact ⟨by omega,subcmdFits⟩

theorem createCntrStrings_texts (ipWhole : 0 ∉ ip) (subcmdWhole : 0 ∉ subcmd)
    (copied : createCntrStrings junk ip subcmd = some args) (behind : List Byte) :
    text (args ++ behind) = some (seenIp ip subcmd) ∧
      text (args.drop ipSize ++ behind) = some subcmd := by
  obtain ⟨first,ipCopied,subcmdCopied⟩ := Option.bind_eq_some_iff.mp copied
  have subcmdText := text_append (strcpy_text subcmdWhole subcmdCopied) behind
  refine ⟨?_,subcmdText⟩
  have start : args.take ipSize = (ip ++ 0 :: junk.drop (ip.length + 1)).take ipSize := by
    obtain ⟨_,rfl⟩ := strcpy_eq_some.mp ipCopied
    rw [strcpy_take subcmdCopied,blit]
    simp
  have parts : args ++ behind = args.take ipSize ++ (args.drop ipSize ++ behind) := by
    rw [← List.append_assoc,List.take_append_drop]
  rw [parts,seenIp]
  split
  · rename_i short
    rw [start,List.take_append,List.take_of_length_le (by omega)]
    obtain ⟨n,rest⟩ : ∃ n, ipSize - ip.length = n + 1 := ⟨ipSize - ip.length - 1,by omega⟩
    rw [rest,List.take_succ_cons,List.append_assoc,List.cons_append]
    exact text_append_zero ipWhole _
  · rename_i long
    rw [start,List.take_append_of_le_length (by omega),
      text_append_of_not_mem fun mem => ipWhole (List.mem_of_mem_take mem),subcmdText]
    rfl

end

/-- The guest's command line is whole. It names the container's command as the launcher was given
it, and its address exactly if that does not fill `ip` or what exceeds it is the command. -/
theorem fillCmdline_launched_iff (cntr : Cntr) (initrdSize : Word) {junk ip subcmd args : List Byte}
    (sized : junk.length = 2 * ipSize) (ipWhole : 0 ∉ ip) (subcmdWhole : 0 ∉ subcmd)
    (copied : createCntrStrings junk ip subcmd = some args) (behind : List Byte)
    {cmdline : List Byte} (room : commandLineSize ≤ cmdline.length) :
    ∃ after, fillCmdline cntr initrdSize args behind cmdline = some after ∧
      text after = some (bootLine cntr initrdSize (seenIp ip subcmd) subcmd ++ bootOptions) ∧
      (text after = some (bootLine cntr initrdSize ip subcmd ++ bootOptions) ↔
        ip.length < ipSize ∨ ip.drop ipSize = subcmd) := by
  obtain ⟨ipText,subcmdText⟩ := createCntrStrings_texts ipWhole subcmdWhole copied behind
  obtain ⟨ipFits,subcmdFits⟩ := createCntrStrings_fits copied
  have seen : (seenIp ip subcmd).length ≤ ip.length + subcmd.length := by
    rw [seenIp]
    split
    · omega
    · rw [List.length_append,List.length_take]
      omega
  obtain ⟨after,filled,shown⟩ := fillCmdline_text cntr initrdSize room ipText subcmdText (by
    rw [sized,ipSize] at ipFits subcmdFits
    omega)
  refine ⟨after,filled,shown,?_⟩
  rw [shown,← seenIp_eq_iff,Option.some.injEq,List.append_cancel_right_eq]
  simp only [bootLine,List.append_assoc,List.append_cancel_left_eq,List.append_cancel_right_eq]

theorem fillCmdline_launched_short :
    ∃ args after,
      createCntrStrings (List.replicate 64 255) (ascii "10.0.0.2") (ascii "run") = some args ∧
      fillCmdline blankCntr 5 args [] (List.replicate 4096 255) = some after ∧
      text after =
        some (bootLine blankCntr 5 (ascii "10.0.0.2") (ascii "run") ++ bootOptions) := by
  obtain ⟨args,copied⟩ := Option.isSome_iff_exists.mp
    (by decide : (createCntrStrings (List.replicate 64 255) (ascii "10.0.0.2") (ascii "run")).isSome)
  have room : commandLineSize ≤ (List.replicate 4096 (255 : Byte)).length := by
    rw [List.length_replicate]
    decide
  obtain ⟨after,filled,_,named⟩ := fillCmdline_launched_iff blankCntr 5 (by decide) (by decide)
    (by decide) copied [] room
  exact ⟨args,after,copied,filled,named.mpr (.inl (by decide))⟩

theorem bootLine_length (cntr : Cntr) (initrdSize : Word) (ip subcmd : List Byte) :
    (bootLine cntr initrdSize ip subcmd).length =
      (bootLine cntr initrdSize [] []).length + ip.length + subcmd.length := by
  simp only [bootLine,List.length_append,List.length_nil]
  omega

theorem text_length_le {bytes s : List Byte} (found : text bytes = some s) :
    s.length < bytes.length := by
  obtain ⟨_,rest,rfl⟩ := text_eq_some.mp found
  simp

section
variable (cntr : Cntr) (initrdSize : Word) {args cmdline : List Byte}

theorem fillCmdline_alike (ends : 0 ∈ args.drop ipSize) (behind behind' : List Byte) :
    fillCmdline cntr initrdSize args behind cmdline =
      fillCmdline cntr initrdSize args behind' cmdline := by
  obtain ⟨subcmd,subcmdText⟩ := text_isSome ends
  obtain ⟨ip,ipText⟩ := text_isSome (List.mem_of_mem_drop ends)
  simp only [fillCmdline,text_append ipText,text_append subcmdText]

/-- One byte more before the NUL behind an unterminated `subcmd` makes the line longer. -/
theorem fillCmdline_differs (sized : args.length = 2 * ipSize) (room : commandLineSize ≤ cmdline.length)
    (unended : 0 ∉ args.drop ipSize) :
    fillCmdline cntr initrdSize args [0] cmdline ≠ fillCmdline cntr initrdSize args [1,0] cmdline := by
  have noneFirst : text ([0] : List Byte) = some [] := by decide
  have oneFirst : text ([1,0] : List Byte) = some [1] := by decide
  have subcmdText : text (args.drop ipSize ++ [0]) = some (args.drop ipSize ++ []) := by
    rw [text_append_of_not_mem unended,noneFirst,Option.map_some]
  have subcmdText' : text (args.drop ipSize ++ [1,0]) = some (args.drop ipSize ++ [1]) := by
    rw [text_append_of_not_mem unended,oneFirst,Option.map_some]
  obtain ⟨ip,ip',ipText,ipText',longer,short⟩ : ∃ ip ip', text (args ++ [0]) = some ip ∧
      text (args ++ [1,0]) = some ip' ∧ ip.length ≤ ip'.length ∧ ip'.length ≤ args.length + 1 := by
    by_cases ends : 0 ∈ args
    · obtain ⟨ip,ipText⟩ := text_isSome ends
      have length := text_length_le ipText
      exact ⟨ip,ip,text_append ipText _,text_append ipText _,Nat.le_refl _,by omega⟩
    · refine ⟨args ++ [],args ++ [1],?_,?_,?_,?_⟩
      · rw [text_append_of_not_mem ends,noneFirst,Option.map_some]
      · rw [text_append_of_not_mem ends,oneFirst,Option.map_some]
      · simp only [List.length_append,List.length_nil]
        omega
      · rw [List.length_append,List.length_singleton]
  rw [ipSize] at sized
  obtain ⟨after,filled,shown⟩ := fillCmdline_text cntr initrdSize room ipText subcmdText (by
    simp only [List.length_append,List.length_drop,List.length_nil,ipSize]
    omega)
  obtain ⟨after',filled',shown'⟩ := fillCmdline_text cntr initrdSize room ipText' subcmdText' (by
    simp only [List.length_append,List.length_drop,List.length_singleton,ipSize]
    omega)
  rw [filled,filled']
  rintro ⟨⟩
  rw [shown] at shown'
  have same := congrArg List.length (Option.some.inj shown')
  rw [List.length_append,List.length_append,bootLine_length,bootLine_length cntr initrdSize ip'] at same
  simp only [List.length_append,List.length_nil,List.length_singleton] at same
  omega

end

/-- Whatever arguments a process passes, the command line ends within its 2048 bytes and nothing
behind them is written; but the guest is shown what lies on the kernel's stack behind the
arguments exactly if `subcmd` has no NUL. -/
theorem fillCmdline_contained (cntr : Cntr) (initrdSize : Word) {args cmdline : List Byte}
    (sized : args.length = 2 * ipSize) (room : commandLineSize ≤ cmdline.length) :
    (∀ behind, 0 ∈ behind → ∃ after line,
      fillCmdline cntr initrdSize args behind cmdline = some after ∧
      text after = some line ∧ line.length < commandLineSize ∧
      after.length = cmdline.length ∧ after.drop commandLineSize = cmdline.drop commandLineSize) ∧
    ((∀ behind behind', 0 ∈ behind → 0 ∈ behind' →
        fillCmdline cntr initrdSize args behind cmdline =
          fillCmdline cntr initrdSize args behind' cmdline) ↔
      0 ∈ args.drop ipSize) := by
  refine ⟨fun behind ends => ?_,fun alike => ?_,fun ends behind behind' _ _ =>
    fillCmdline_alike cntr initrdSize ends behind behind'⟩
  · obtain ⟨ip,ipText⟩ := text_isSome (List.mem_append_right args ends)
    obtain ⟨subcmd,subcmdText⟩ := text_isSome (List.mem_append_right (args.drop ipSize) ends)
    obtain ⟨after,filled,holds⟩ := fillCmdline_holds cntr initrdSize room ipText subcmdText
    exact ⟨after,_,filled,holds.text,holds.fits,holds.length,holds.behind⟩
  · by_contra unended
    exact fillCmdline_differs cntr initrdSize sized room unended (alike _ _ (by simp) (by simp))

theorem fillCmdline_contained_unended :
    ¬ ∀ behind behind' : List Byte, 0 ∈ behind → 0 ∈ behind' →
      fillCmdline blankCntr 5 (List.replicate 64 1) behind (List.replicate 4096 0) =
        fillCmdline blankCntr 5 (List.replicate 64 1) behind' (List.replicate 4096 0) := by
  have room : commandLineSize ≤ (List.replicate 4096 (0 : Byte)).length := by
    rw [List.length_replicate]
    decide
  rw [(fillCmdline_contained blankCntr 5 (by decide) room).2]
  decide

end Cki.Create
