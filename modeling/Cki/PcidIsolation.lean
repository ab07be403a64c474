import Cki.CreatePcids
import Cki.SwitchCaches
import Cki.SwitchTrips
import Mathlib.Logic.Function.Basic

/-! Translation caches over the life of the containers. The fast switch flushes nothing and
relies on the PCIDs, a guest that boots sets PCIDs of its own and relies on the slow switch.
Each vCPU runs on the processor of its number, to which START binds its thread. -/
namespace Cki.Isolation

open Asm Switch Create

universe u

/-- The host, or a container by its place in the order of creation. -/
abbrev Owner := Option Nat

structure Core where
  owner : Owner
  tag : Tag
  cache : Cache Owner

/-- `pk_rkret` of each vCPU, `__pk_rkcall` of the guest, and whether the guest has still to
make INIT_LATE. -/
structure Mode where
  pkRkret : Nat → Variant
  pkRkcall : Variant
  booting : Bool

structure World where
  pcids : Pcids
  made : List Word
  cores : Nat → Core
  modes : Nat → Mode

/-- The container that a creation has made. -/
def madeBy : Outcome Kmod Result → Option Word
  | .ret (_,some cntr) _ => some cntr.pcid
  | _ => none

def World.setCore (w : World) (core : Nat) (next : Core) : World :=
  { w with cores := Function.update w.cores core next }

def World.setMode (w : World) (k : Nat) (mode : Mode) : World :=
  { w with modes := Function.update w.modes k mode }

theorem setCore_core (w : World) (core : Nat) (next : Core) : (w.setCore core next).cores core = next :=
  Function.update_self ..

theorem setCore_other (w : World) {core other : Nat} (apart : other ≠ core) (next : Core) :
    (w.setCore core next).cores other = w.cores other := Function.update_of_ne apart ..

inductive Event where
  | create (env : Env) (memory : Cntr)
  | release (cntr : Cntr)
  | host (core : Nat)
  | resume (core k : Nat)
  | rkcall (core : Nat) (late : Bool)
  | hostFast (core k : Nat)
  | guestFast (core : Nat)
  | writeCr3 (core : Nat) (val : Word)
  | bootCr3 (core : Nat) (val : Word)
  | fill (core : Nat)
  | evict (core : Nat)

variable {Space : Type u} [DecidableEq Space]

/-- `pk_rkret` runs into the guest. -/
def World.resumed (cpu : Cpu Space) (w : World) (core k : Nat) (back : Word) (m : Machine Space) :
    World :=
  let code := pkRkret ((w.modes k).pkRkret core) back
  w.setCore core ⟨some k,tagOf (run cpu code m).cr3,cacheRun cpu code m (w.cores core).cache⟩

/-- `__pk_rkcall` runs into the host; INIT_LATE ends the boot. -/
def World.called (cpu : Cpu Space) (w : World) (core k : Nat) (late : Bool) (back : Word)
    (m : Machine Space) : World :=
  let mode := w.modes k
  let code := pkRkcall mode.pkRkcall back
  (w.setCore core
    ⟨none,tagOf (run cpu code m).cr3,cacheRun cpu code m (w.cores core).cache⟩).setMode k
    { mode with booting := mode.booting && !late }

/-- `hostTags` are the PCIDs under which the host kernel runs. -/
inductive Step (cpu : Cpu Space) (hostTags : Set Tag) (w : World) : Event → World → Prop where
  | create {env : Env} {memory : Cntr} {pcids : Pcids} (step : PcidStep w.pcids (.create env memory) pcids) :
      Step cpu hostTags w (.create env memory)
        { w with
          pcids := pcids
          made := w.made ++
            (madeBy (pkmDevIoctlCreateCntr env memory ⟨[],w.pcids.next⟩)).toList }
  | release {cntr : Cntr} {pcids : Pcids} (step : PcidStep w.pcids (.release cntr) pcids) :
      Step cpu hostTags w (.release cntr) { w with pcids := pcids }
  /-- The host goes on under another PCID of its own, and may have flushed. -/
  | host {core : Nat} {tag : Tag} {cache : Cache Owner} (idle : (w.cores core).owner = none)
      (own : tag ∈ hostTags) (flushed : cache ⊆ (w.cores core).cache) :
      Step cpu hostTags w (.host core) (w.setCore core ⟨none,tag,cache⟩)
  /-- The top of START's loop: the PCID goes into the guest's CR3 and `pk_rkret` runs. -/
  | resume {core k : Nat} {pcid root back : Word} (m : Machine Space)
      (idle : (w.cores core).owner = none) (exists_ : w.made[k]? = some pcid)
      (word : m.word cpu (m.gpr .rdi + pkCtxCr3) = withPcid root pcid) :
      Step cpu hostTags w (.resume core k) (w.resumed cpu core k back m)
  /-- The guest's call switches to `rk_cr3` of its boot parameters. -/
  | rkcall {core k : Nat} {late : Bool} {back : Word} (m : Machine Space)
      (running : (w.cores core).owner = some k) (apart : m.here cpu ≠ hostOf cpu m)
      (rkCr3 : tagOf (m.gpr .rdi) ∈ hostTags) :
      Step cpu hostTags w (.rkcall core late) (w.called cpu core k late back m)
  /-- INIT_LATE passes its check. -/
  | hostFast {core k : Nat} (late : (w.modes k).booting = false) :
      Step cpu hostTags w (.hostFast core k)
        (w.setMode k { w.modes k with pkRkret := Function.update (w.modes k).pkRkret core .fast })
  /-- `pk_init_late` goes on. -/
  | guestFast {core k : Nat} (running : (w.cores core).owner = some k)
      (late : (w.modes k).booting = false) :
      Step cpu hostTags w (.guestFast core) (w.setMode k { w.modes k with pkRkcall := .fast })
  /-- `pkm_write_cr3`, with the PCID of the boot parameters. -/
  | writeCr3 {core k : Nat} {pcid val : Word} {cache : Cache Owner}
      (running : (w.cores core).owner = some k) (exists_ : w.made[k]? = some pcid)
      (flushed : cache ⊆ (w.cores core).cache) :
      Step cpu hostTags w (.writeCr3 core val)
        (w.setCore core ⟨some k,tagOf (withPcid val pcid),cache⟩)
  /-- The code before the paravirt operations are set up loads what it likes. -/
  | bootCr3 {core k : Nat} {val : Word} {cache : Cache Owner}
      (running : (w.cores core).owner = some k) (booting : (w.modes k).booting = true)
      (flushed : cache ⊆ (w.cores core).cache) :
      Step cpu hostTags w (.bootCr3 core val) (w.setCore core ⟨some k,tagOf val,cache⟩)
  /-- The processor walks the tables in force. -/
  | fill {core : Nat} : Step cpu hostTags w (.fill core)
      (w.setCore core { w.cores core with
        cache := insert ((w.cores core).tag,(w.cores core).owner) (w.cores core).cache })
  | evict {core : Nat} {cache : Cache Owner} (fewer : cache ⊆ (w.cores core).cache) :
      Step cpu hostTags w (.evict core) (w.setCore core { w.cores core with cache := cache })

/-! The PCIDs of the containers that were ever made. -/

/-- The counter starts at the least PCID and does not wrap around. -/
structure Numbered (w : World) : Prop where
  distinct : w.made.Nodup
  least : ∀ pcid ∈ w.made, 10 ≤ pcid.toNat
  most : ∀ pcid ∈ w.made, pcid.toNat ≤ 100
  below : ∀ pcid ∈ w.made, pcid.toNat < w.pcids.next.toNat
  counter : 10 ≤ w.pcids.next.toNat

/-- The counter has not come to its last value where a creation takes it, and a guest has its
first vCPU only: its kernel brings up no other. -/
def Plain (w : World) : Event → Prop
  | .create .. => w.pcids.next.toNat + 1 < 2 ^ 32
  | .resume core _ => core = 0
  | _ => True

/-- A creation advances the counter by one at most, and a container has the number it had. -/
inductive Creates (w : World) (made : Option Word) (pcids : Pcids) : Prop where
  | none (nothing : made = none) (next : pcids.next = w.pcids.next ∨ pcids.next = w.pcids.next + 1) :
      Creates w made pcids
  | some (pcid : made = some (w.pcids.next.setWidth 64))
      (within : w.pcids.next.setWidth 64 ≤ pkmCntrMaxPcid) (next : pcids.next = w.pcids.next + 1) :
      Creates w made pcids

theorem fails_creates {w : World} {outcome : Outcome Kmod Result} {next : BitVec 32}
    (fails : Fails outcome next) (advanced : next = w.pcids.next ∨ next = w.pcids.next + 1) :
    Creates w (madeBy outcome) (afterCreate w.pcids.live outcome) := by
  obtain ⟨r,_,⟨k,rfl,rfl⟩ | ⟨k,rfl,rfl⟩⟩ := fails
  · exact .none rfl advanced
  · exact .none rfl advanced

theorem create_creates {w : World} {env : Env} {memory : Cntr} {pcids : Pcids}
    (step : PcidStep w.pcids (.create env memory) pcids) :
    Creates w (madeBy (pkmDevIoctlCreateCntr env memory ⟨[],w.pcids.next⟩)) pcids := by
  obtain ⟨documented,rfl⟩ := step
  rcases create_takes documented memory ⟨[],w.pcids.next⟩ with ⟨_,taken⟩ | ⟨_,fails⟩
  · cases taken with
    | refused k above ends advanced =>
      rw [ends]
      exact .none rfl (.inr advanced)
    | failed within lacks fails => exact fails_creates fails (.inr rfl)
    | made within finishes makes =>
      obtain ⟨fd,cntr,k,ends,_,pcid,advanced⟩ := makes
      rw [ends]
      exact .some (congrArg Option.some pcid) within advanced
  · exact fails_creates fails (.inl rfl)

theorem create_numbered {w : World} {made : Option Word} {pcids : Pcids} (numbered : Numbered w)
    (creates : Creates w made pcids) (unwrapped : w.pcids.next.toNat + 1 < 2 ^ 32) :
    Numbered { w with pcids := pcids, made := w.made ++ made.toList } := by
  have up : (w.pcids.next + 1).toNat = w.pcids.next.toNat + 1 := by
    rw [BitVec.toNat_add]
    exact Nat.mod_eq_of_lt unwrapped
  have counter := numbered.counter
  cases creates with
  | none nothing next =>
    have more : w.pcids.next.toNat ≤ pcids.next.toNat := by
      rcases next with same | same <;> rw [same]
      rw [up]
      exact Nat.le_succ _
    rw [nothing,Option.toList_none,List.append_nil]
    refine ⟨numbered.distinct,numbered.least,numbered.most,fun pcid mem => ?_,?_⟩
    · exact Nat.lt_of_lt_of_le (numbered.below pcid mem) more
    · exact Nat.le_trans counter more
  | some pcid within next =>
    have width : (w.pcids.next.setWidth 64).toNat = w.pcids.next.toNat := by
      rw [BitVec.toNat_setWidth]
      omega
    have most : w.pcids.next.toNat ≤ 100 := by
      rw [BitVec.le_def,width] at within
      exact within
    rw [pcid,Option.toList_some]
    refine ⟨?_,?_,?_,?_,?_⟩
    · refine List.nodup_append.mpr ⟨numbered.distinct,by simp,?_⟩
      rintro old mem new fresh rfl
      have below := numbered.below old mem
      rw [List.mem_singleton.mp fresh,width] at below
      exact Nat.lt_irrefl _ below
    · exact List.forall_mem_append.mpr ⟨numbered.least,List.forall_mem_singleton.mpr (by omega)⟩
    · exact List.forall_mem_append.mpr ⟨numbered.most,List.forall_mem_singleton.mpr (by omega)⟩
    · rw [next,up]
      refine List.forall_mem_append.mpr ⟨fun old mem => ?_,List.forall_mem_singleton.mpr (by omega)⟩
      exact Nat.lt_succ_of_lt (numbered.below old mem)
    · rw [next,up]
      exact Nat.le_succ_of_le counter

/-! The caches. -/

/-- The entry is tagged as its owner is. -/
def Tagged (hostTags : Set Tag) (made : List Word) (entry : Tag × Owner) : Prop :=
  entry.2 = none ∧ entry.1 ∈ hostTags ∨
    ∃ k pcid, entry.2 = some k ∧ made[k]? = some pcid ∧ entry.1 = tagOf pcid

/-- Behind a container that boots the cache holds nothing else, whatever tags it uses; elsewhere
every entry has its owner's tag. -/
inductive CoreFits (hostTags : Set Tag) (w : World) (core : Nat) : Prop where
  | host (owner : (w.cores core).owner = none) (tag : (w.cores core).tag ∈ hostTags)
      (tagged : ∀ entry ∈ (w.cores core).cache, Tagged hostTags w.made entry) :
      CoreFits hostTags w core
  | booting {k : Nat} (owner : (w.cores core).owner = some k)
      (boots : (w.modes k).booting = true)
      (own : ∀ entry ∈ (w.cores core).cache, entry.2 = some k) : CoreFits hostTags w core
  | late {k : Nat} {pcid : Word} (owner : (w.cores core).owner = some k)
      (booted : (w.modes k).booting = false) (number : w.made[k]? = some pcid)
      (tag : (w.cores core).tag = tagOf pcid)
      (tagged : ∀ entry ∈ (w.cores core).cache, Tagged hostTags w.made entry) :
      CoreFits hostTags w core

structure Fits (hostTags : Set Tag) (w : World) : Prop where
  numbered : Numbered w
  slow : ∀ k, (w.modes k).booting = true →
    (∀ core, (w.modes k).pkRkret core = .slow) ∧ (w.modes k).pkRkcall = .slow
  single : ∀ core k, (w.cores core).owner = some k → core = 0
  cores : ∀ core, CoreFits hostTags w core

/-- While an owner runs, the entries under its tag are its own. -/
def OwnEntries (w : World) : Prop :=
  ∀ core, ∀ entry ∈ (w.cores core).cache, entry.1 = (w.cores core).tag →
    entry.2 = (w.cores core).owner

theorem tagOf_dropNoFlush (cr3 : Word) : tagOf (dropNoFlush cr3) = tagOf cr3 := by
  rw [tagOf,dropNoFlush,BitVec.setWidth_and]
  have low : (~~~(1#64 <<< 63)).setWidth 12 = BitVec.allOnes 12 := by decide
  rw [low,BitVec.and_allOnes]
  rfl

theorem tagOf_withPcid (root pcid : Word) : tagOf (withPcid root pcid) = tagOf pcid := by
  rw [tagOf,withPcid,BitVec.setWidth_or,BitVec.setWidth_and]
  have low : (~~~(0xfff : Word)).setWidth 12 = 0#12 := by decide
  rw [low,BitVec.and_zero,BitVec.zero_or]
  rfl

theorem tagOf_toNat {pcid : Word} (small : pcid.toNat ≤ 100) : (tagOf pcid).toNat = pcid.toNat := by
  rw [tagOf,BitVec.toNat_setWidth]
  omega

theorem Fits.ownEntries {hostTags : Set Tag} {w : World} (fits : Fits hostTags w)
    (outside : ∀ tag ∈ hostTags, tag.toNat < 10 ∨ 100 < tag.toNat) : OwnEntries w := by
  have apart : ∀ {k : Nat} {pcid : Word} {tag : Tag}, w.made[k]? = some pcid → tag ∈ hostTags →
      tag ≠ tagOf pcid := by
    rintro k pcid _ number host rfl
    have mem := List.mem_of_getElem? number
    have least := fits.numbered.least pcid mem
    have most := fits.numbered.most pcid mem
    have range := outside _ host
    rw [tagOf_toNat most] at range
    omega
  intro core entry mem same
  cases fits.cores core with
  | host owner tag tagged =>
    rw [owner]
    rcases tagged entry mem with ⟨host,_⟩ | ⟨k,pcid,_,number,named⟩
    · exact host
    · exact absurd (same.symm.trans named) (apart number tag)
  | booting owner boots own =>
    rw [owner]
    exact own entry mem
  | @late k pcid owner booted number tag tagged =>
    rw [owner]
    rcases tagged entry mem with ⟨_,host⟩ | ⟨k',pcid',named,number',tag'⟩
    · exact absurd (same.trans tag) (apart number host)
    · have equal : pcid' = pcid := by
        have most := fits.numbered.most _ (List.mem_of_getElem? number)
        have most' := fits.numbered.most _ (List.mem_of_getElem? number')
        have tags : tagOf pcid' = tagOf pcid := tag'.symm.trans (same.trans tag)
        apply BitVec.eq_of_toNat_eq
        rw [← tagOf_toNat most,← tagOf_toNat most',tags]
      rw [equal] at number'
      have bound := (List.getElem?_eq_some_iff.mp number').1
      rw [named,(List.getElem?_inj bound fits.numbered.distinct).mp (number'.trans number.symm)]

/-! One step. -/

section
variable {hostTags : Set Tag} {w : World} {core : Nat}

theorem Tagged.append {made : List Word} {entry : Tag × Owner} (tagged : Tagged hostTags made entry)
    (more : List Word) : Tagged hostTags (made ++ more) entry := by
  rcases tagged with host | ⟨k,pcid,owner,number,tag⟩
  · exact .inl host
  · have bound := (List.getElem?_eq_some_iff.mp number).1
    exact .inr ⟨k,pcid,owner,by rw [List.getElem?_append_left bound,number],tag⟩

/-- What a core depends on. -/
theorem CoreFits.congr {w' : World} (fits : CoreFits hostTags w core)
    (same : w'.cores core = w.cores core) (more : List Word) (made : w'.made = w.made ++ more)
    (modes : ∀ k, (w.cores core).owner = some k →
      (w'.modes k).booting = (w.modes k).booting) :
    CoreFits hostTags w' core := by
  cases fits with
  | host owner tag tagged =>
    refine .host (by rw [same,owner]) (by rw [same]; exact tag) ?_
    rw [same,made]
    exact fun entry mem => (tagged entry mem).append more
  | @booting k owner boots own =>
    refine .booting (by rw [same,owner]) (by rw [modes k owner,boots]) ?_
    rw [same]
    exact own
  | @late k pcid owner booted number tag tagged =>
    have bound := (List.getElem?_eq_some_iff.mp number).1
    refine .late (by rw [same,owner]) (by rw [modes k owner,booted])
      (by rw [made,List.getElem?_append_left bound,number]) (by rw [same,tag]) ?_
    rw [same,made]
    exact fun entry mem => (tagged entry mem).append more

theorem setCore_fits {next : Core} (fits : Fits hostTags w)
    (first : ∀ k, next.owner = some k → core = 0)
    (here : CoreFits hostTags (w.setCore core next) core) : Fits hostTags (w.setCore core next) where
  numbered := ⟨fits.numbered.distinct,fits.numbered.least,fits.numbered.most,fits.numbered.below,
    fits.numbered.counter⟩
  slow := fits.slow
  single := by
    intro other k owner
    by_cases same : other = core
    · rw [same,setCore_core] at owner
      exact same.trans (first k owner)
    · rw [setCore_other w same] at owner
      exact fits.single other k owner
  cores := by
    intro other
    by_cases same : other = core
    · rw [same]
      exact here
    · exact (fits.cores other).congr (setCore_other w same next) [] (List.append_nil _).symm
        fun _ _ => rfl

theorem setMode_modes (w : World) (k : Nat) (mode : Mode) (k' : Nat) :
    (w.setMode k mode).modes k' = if k' = k then mode else w.modes k' :=
  Function.update_apply ..

/-- A change of a mode that does not end the boot of a guest that runs. -/
theorem setMode_fits {k : Nat} {mode : Mode} (fits : Fits hostTags w)
    (booting : (∃ core, (w.cores core).owner = some k) → mode.booting = (w.modes k).booting)
    (slow : mode.booting = true → (∀ core, mode.pkRkret core = .slow) ∧ mode.pkRkcall = .slow) :
    Fits hostTags (w.setMode k mode) where
  numbered := ⟨fits.numbered.distinct,fits.numbered.least,fits.numbered.most,fits.numbered.below,
    fits.numbered.counter⟩
  slow := by
    intro k'
    rw [setMode_modes]
    split
    · exact slow
    · exact fits.slow k'
  single := fits.single
  cores := by
    intro core
    refine (fits.cores core).congr rfl [] (List.append_nil _).symm fun k' owner => ?_
    rw [setMode_modes]
    split
    case isTrue same =>
      subst same
      exact booting ⟨core,owner⟩
    case isFalse => rfl

theorem resumed_fits {cpu : Cpu Space} {k : Nat} {pcid root back : Word} {m : Machine Space}
    (fits : Fits hostTags w) (first : core = 0) (idle : (w.cores core).owner = none) (number : w.made[k]? = some pcid)
    (word : m.word cpu (m.gpr .rdi + pkCtxCr3) = withPcid root pcid) :
    Fits hostTags (w.resumed cpu core k back m) := by
  have tag : tagOf (run cpu (pkRkret ((w.modes k).pkRkret core) back) m).cr3 = tagOf pcid := by
    rw [(pkRkret_spec cpu _ back m).cr3,tagOf_dropNoFlush]
    exact (congrArg tagOf word).trans (tagOf_withPcid root pcid)
  refine setCore_fits fits (fun _ _ => first) ?_
  cases boots : (w.modes k).booting with
  | true =>
    refine .booting (by rw [setCore_core]) boots ?_
    rw [setCore_core,pkRkret_caches,(fits.slow k boots).1 core]
    exact fun entry mem => absurd mem (Set.notMem_empty entry)
  | false =>
    refine .late (by rw [setCore_core]) boots number
      (by rw [setCore_core,tag]) ?_
    rw [setCore_core]
    intro entry mem
    have old := cacheRun_subset cpu _ m _ mem
    cases fits.cores core with
    | host owner _ tagged => exact tagged entry old
    | booting owner => exact absurd (idle.symm.trans owner) (by simp)
    | late owner => exact absurd (idle.symm.trans owner) (by simp)

theorem called_fits {cpu : Cpu Space} {k : Nat} {late : Bool} {back : Word} {m : Machine Space}
    (fits : Fits hostTags w) (running : (w.cores core).owner = some k)
    (apart : m.here cpu ≠ hostOf cpu m) (rkCr3 : tagOf (m.gpr .rdi) ∈ hostTags) :
    Fits hostTags (w.called cpu core k late back m) := by
  have tag : tagOf (run cpu (pkRkcall (w.modes k).pkRkcall back) m).cr3 ∈ hostTags := by
    rw [(pkRkcall_spec cpu _ back m apart).cr3,tagOf_dropNoFlush]
    exact rkCr3
  have host : Fits hostTags (w.setCore core
      ⟨none,tagOf (run cpu (pkRkcall (w.modes k).pkRkcall back) m).cr3,
        cacheRun cpu (pkRkcall (w.modes k).pkRkcall back) m (w.cores core).cache⟩) := by
    refine setCore_fits fits nofun (.host (by rw [setCore_core])
      (by rw [setCore_core]; exact tag) ?_)
    rw [setCore_core]
    intro entry mem
    cases fits.cores core with
    | host owner => exact absurd (running.symm.trans owner) (by simp)
    | booting owner boots =>
      cases running.symm.trans owner
      rw [pkRkcall_caches,(fits.slow k boots).2] at mem
      exact absurd mem (Set.notMem_empty entry)
    | late owner _ _ _ tagged => exact tagged entry (cacheRun_subset cpu _ m _ mem)
  refine setMode_fits host ?_ ?_
  · rintro ⟨other,owner⟩
    have first := host.single other k owner
    rw [first,← fits.single core k running,setCore_core] at owner
    cases owner
  · intro boots
    rw [Bool.and_eq_true] at boots
    exact fits.slow k boots.1

/-- An owner that runs goes on under another tag, with entries of the cache gone. -/
theorem retagged_fits {k : Nat} {tag : Tag} {cache : Cache Owner} (fits : Fits hostTags w)
    (running : (w.cores core).owner = some k) (fewer : cache ⊆ (w.cores core).cache)
    (own : (w.modes k).booting = false → ∃ pcid, w.made[k]? = some pcid ∧ tag = tagOf pcid) :
    Fits hostTags (w.setCore core ⟨some k,tag,cache⟩) := by
  refine setCore_fits fits (fun _ _ => fits.single core k running) ?_
  cases fits.cores core with
  | host owner => exact absurd (running.symm.trans owner) (by simp)
  | booting owner boots entries =>
    cases running.symm.trans owner
    refine .booting (by rw [setCore_core]) boots ?_
    rw [setCore_core]
    exact fun entry mem => entries entry (fewer mem)
  | late owner booted _ _ tagged =>
    cases running.symm.trans owner
    obtain ⟨pcid,number,same⟩ := own booted
    refine .late (by rw [setCore_core]) booted number (by rw [setCore_core,same]) ?_
    rw [setCore_core]
    exact fun entry mem => tagged entry (fewer mem)

/-- The core's owner and tag stay, and what comes into the cache is the owner's under the tag. -/
theorem cached_fits {cache : Cache Owner} (fits : Fits hostTags w)
    (filled : ∀ entry ∈ cache,
      entry = ((w.cores core).tag,(w.cores core).owner) ∨ entry ∈ (w.cores core).cache) :
    Fits hostTags (w.setCore core { w.cores core with cache := cache }) := by
  refine setCore_fits fits (fits.single core) ?_
  cases fits.cores core with
  | host owner tag tagged =>
    refine .host (by rw [setCore_core,owner]) (by rw [setCore_core]; exact tag) ?_
    rw [setCore_core]
    intro entry mem
    rcases filled entry mem with rfl | old
    · exact .inl ⟨owner,tag⟩
    · exact tagged entry old
  | booting owner boots own =>
    refine .booting (by rw [setCore_core,owner]) boots ?_
    rw [setCore_core]
    intro entry mem
    rcases filled entry mem with rfl | old
    · exact owner
    · exact own entry old
  | @late k pcid owner booted number tag tagged =>
    refine .late (by rw [setCore_core,owner]) booted number (by rw [setCore_core,tag]) ?_
    rw [setCore_core]
    intro entry mem
    rcases filled entry mem with rfl | old
    · exact .inr ⟨k,pcid,owner,number,tag⟩
    · exact tagged entry old

end

theorem step_fits {cpu : Cpu Space} {hostTags : Set Tag} {w w' : World} {event : Event}
    (fits : Fits hostTags w) (plain : Plain w event) (step : Step cpu hostTags w event w') :
    Fits hostTags w' := by
  cases step with
  | create step =>
    refine ⟨create_numbered fits.numbered (create_creates step) plain,fits.slow,fits.single,?_⟩
    exact fun core => (fits.cores core).congr rfl _ rfl fun _ _ => rfl
  | @release cntr pcids step =>
    have next : pcids.next = w.pcids.next := by
      rw [step.2]
      exact pkmCntrRelease_keepsCounter cntr _
    have numbered := fits.numbered
    refine ⟨⟨numbered.distinct,numbered.least,numbered.most,?_,?_⟩,fits.slow,fits.single,?_⟩
    · rw [next]
      exact numbered.below
    · rw [next]
      exact numbered.counter
    · exact fun core => (fits.cores core).congr rfl [] (List.append_nil _).symm fun _ _ => rfl
  | @host core tag cache idle own flushed =>
    refine setCore_fits fits nofun (.host (by rw [setCore_core]) (by rw [setCore_core]; exact own) ?_)
    rw [setCore_core]
    intro entry mem
    cases fits.cores core with
    | host owner _ tagged => exact tagged entry (flushed mem)
    | booting owner => exact absurd (idle.symm.trans owner) (by simp)
    | late owner => exact absurd (idle.symm.trans owner) (by simp)
  | resume m idle number word => exact resumed_fits fits plain idle number word
  | rkcall m running apart rkCr3 => exact called_fits fits running apart rkCr3
  | @hostFast core k late =>
    refine setMode_fits fits (fun _ => rfl) fun boots => ?_
    exact absurd (late.symm.trans boots) (by decide)
  | @guestFast core k running late =>
    refine setMode_fits fits (fun _ => rfl) fun boots => ?_
    exact absurd (late.symm.trans boots) (by decide)
  | @writeCr3 core k pcid val cache running number flushed =>
    exact retagged_fits fits running flushed fun _ => ⟨pcid,number,tagOf_withPcid val pcid⟩
  | bootCr3 running boots flushed =>
    exact retagged_fits fits running flushed fun late => absurd (late.symm.trans boots) (by decide)
  | fill => exact cached_fits fits fun entry mem => Set.mem_insert_iff.mp mem
  | evict fewer => exact cached_fits fits fun entry mem => .inr (fewer mem)

/-- The module is loaded: no container was made, and what is cached is the host's. -/
structure Loaded (hostTags : Set Tag) (w : World) : Prop where
  pcids : w.pcids = .start
  made : w.made = []
  cores : ∀ core, (w.cores core).owner = none ∧ (w.cores core).tag ∈ hostTags ∧
    ∀ entry ∈ (w.cores core).cache, entry.2 = none ∧ entry.1 ∈ hostTags
  modes : ∀ k, w.modes k = ⟨fun _ => .slow,.slow,true⟩

theorem Loaded.fits {hostTags : Set Tag} {w : World} (loaded : Loaded hostTags w) :
    Fits hostTags w where
  numbered := by
    refine ⟨by rw [loaded.made]; exact List.nodup_nil,?_,?_,?_,?_⟩
    · rw [loaded.made]
      exact nofun
    · rw [loaded.made]
      exact nofun
    · rw [loaded.made]
      exact nofun
    · rw [loaded.pcids]
      exact Nat.le_refl 10
  slow := by
    intro k _
    rw [loaded.modes]
    exact ⟨fun _ => rfl,rfl⟩
  single := by
    intro core k owner
    rw [(loaded.cores core).1] at owner
    cases owner
  cores := by
    intro core
    obtain ⟨owner,tag,own⟩ := loaded.cores core
    exact .host owner tag fun entry mem => .inl (own entry mem)

/-- Whatever the containers and the host do, no owner meets under its tag a translation that
another has left in the cache. -/
theorem run_ownEntries {cpu : Cpu Space} {hostTags : Set Tag} {w w' : World} {events : List Event}
    (outside : ∀ tag ∈ hostTags, tag.toNat < 10 ∨ 100 < tag.toNat) (loaded : Loaded hostTags w)
    (run : Run (Guarded Plain (Step cpu hostTags)) w events w') : OwnEntries w' := by
  have fits := run.invariant (Fits hostTags) (fun _ _ _ fits step => step_fits fits step.1 step.2)
    loaded.fits
  exact fits.ownEntries outside

/-- No container was made, and the host runs under tag 0 with nothing cached. -/
def justLoaded : World where
  pcids := .start
  made := []
  cores _ := ⟨none,0,∅⟩
  modes _ := ⟨fun _ => .slow,.slow,true⟩

theorem justLoaded_loaded : Loaded {0} justLoaded :=
  ⟨rfl,rfl,fun _ => ⟨rfl,rfl,fun _ mem => absurd mem (Set.notMem_empty _)⟩,fun _ => rfl⟩

theorem create_grants : madeBy (pkmDevIoctlCreateCntr grants blankCntr ⟨[],pkmCntrMinPcid⟩) = some 10 := by
  rfl

/-- START about to resume the first container. -/
def starter : Machine Side := { caller 0 with cr3 := 0x1000, mem := fun _ _ => 0x500a }

/-- The first container boots under the tag of the host, and calls. -/
theorem boot_run {w : World} (idle : (w.cores 0).owner = none) (number : w.made[0]? = some 10)
    (boots : (w.modes 0).booting = true) : ∃ t, Run (Guarded Plain (Step sides {0})) w
      [.resume 0 0,.bootCr3 0 0x3000,.fill 0,.rkcall 0 false] t := by
  have resume : Step sides {0} w (.resume 0 0) (w.resumed sides 0 0 0x200 starter) :=
    .resume starter idle number (by decide : (0x500a : Word) = withPcid 0x5000 10)
  generalize resumed : w.resumed sides 0 0 0x200 starter = x at resume
  have running : (x.cores 0).owner = some 0 := by
    rw [← resumed,World.resumed,setCore_core]
  have boots' : (x.modes 0).booting = true := by
    rw [← resumed]
    exact boots
  have load : Step sides {0} x (.bootCr3 0 0x3000)
      (x.setCore 0 ⟨some 0,tagOf 0x3000,(x.cores 0).cache⟩) := .bootCr3 running boots' subset_rfl
  have call : ∀ y : World, (y.cores 0).owner = some 0 →
      Step sides {0} y (.rkcall 0 false) (y.called sides 0 0 false 0x100 (caller 0)) := by
    intro y running
    exact .rkcall (caller 0) running (caller_spaces 0) (by decide : tagOf 0x1000 = 0)
  refine ⟨_,.cons ⟨rfl,resume⟩ (.cons ⟨trivial,load⟩ (.cons ⟨trivial,.fill⟩
    (.single ⟨trivial,call _ ?_⟩)))⟩
  rw [setCore_core,setCore_core]

theorem run_ownEntries_booting : ∃ events w,
    Run (Guarded Plain (Step sides {0})) justLoaded events w ∧ OwnEntries w := by
  have create : Step sides {0} justLoaded (.create grants blankCntr) _ :=
    .create ⟨grants_documented,rfl⟩
  have plain : Plain justLoaded (.create grants blankCntr) :=
    (by decide : pkmCntrMinPcid.toNat + 1 < 2 ^ 32)
  have number : (justLoaded.made ++
      (madeBy (pkmDevIoctlCreateCntr grants blankCntr ⟨[],justLoaded.pcids.next⟩)).toList)[0]? =
        some 10 := congrArg (fun made => (List.nil ++ Option.toList made)[0]?) create_grants
  obtain ⟨t,boot⟩ := boot_run (w := { justLoaded with pcids := _,made := _ }) rfl number rfl
  have run := Run.cons ⟨plain,create⟩ boot
  have outside : ∀ tag ∈ ({0} : Set Tag), tag.toNat < 10 ∨ 100 < tag.toNat := by
    rintro tag rfl
    exact .inl (by decide)
  exact ⟨_,t,run,run_ownEntries outside justLoaded_loaded run⟩

end Cki.Isolation
