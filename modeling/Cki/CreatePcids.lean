import Cki.CreateEnds
import Cki.Run

/-! The PCIDs of containers over creations and releases. `next_cntr_pcid` is advanced by
every creation that gets to it, is never set back, and is compared with the upper limit
only. -/
namespace Cki.Create

open Ledger Virtio

/-- The counter, the PCIDs of the containers that live, and what the last call returned if it
was a creation. -/
structure Pcids where
  next : BitVec 32
  live : List Word
  answer : Option Int

/-- The module is loaded. -/
def Pcids.start : Pcids := ⟨pkmCntrMinPcid,[],none⟩

inductive PcidEvent where
  | create (env : Env) (memory : Cntr)
  | release (cntr : Cntr)

def afterCreate (live : List Word) : Outcome Kmod Result → Pcids
  | .ret (r,some cntr) k => ⟨k.nextCntrPcid,cntr.pcid :: live,some r⟩
  | .ret (r,none) k => ⟨k.nextCntrPcid,live,some r⟩
  | .bug k | .fault k => ⟨k.nextCntrPcid,live,none⟩

def afterRelease (s : Pcids) (cntr : Cntr) : Pcids :=
  ⟨(pkmCntrRelease cntr ⟨[],s.next⟩).state.nextCntrPcid,s.live.erase cntr.pcid,none⟩

/-- A creation, successful or failed at any point, or the release of a container that lives. -/
def PcidStep (s : Pcids) (event : PcidEvent) (t : Pcids) : Prop :=
  match event with
  | .create env memory => env.Documented ∧
      t = afterCreate s.live (pkmDevIoctlCreateCntr env memory ⟨[],s.next⟩)
  | .release cntr => cntr.pcid ∈ s.live ∧ t = afterRelease s cntr

def InRange (pcid : Word) : Prop := pkmCntrMinPcid.setWidth 64 ≤ pcid ∧ pcid ≤ pkmCntrMaxPcid

/-- The PCIDs of live containers are distinct and in range, and a creation has been refused
for want of a PCID only if all of the range are taken. -/
structure Sound (s : Pcids) : Prop where
  distinct : s.live.Nodup
  within : ∀ pcid ∈ s.live, InRange pcid
  exhausted : s.answer = some (-eoverflow) → ∀ pcid, InRange pcid → pcid ∈ s.live

def numPcids : Nat := 91

/-- The counter is in range and not the PCID of a live container wherever a creation takes it
and comes to its end, and is beyond the range only while as many containers live as there
are PCIDs. -/
def CounterFits (s : Pcids) : PcidEvent → Prop
  | .create env _ => env.ReachesPcid →
      if s.next.setWidth 64 ≤ pkmCntrMaxPcid then
        env.Finishes → pkmCntrMinPcid ≤ s.next ∧ s.next.setWidth 64 ∉ s.live
      else s.live.length = numPcids
  | .release _ => True

/-! The range. -/

def pcids : List Word := (List.range numPcids).map fun i => BitVec.ofNat 64 (i + 10)

theorem mem_pcids (pcid : Word) : pcid ∈ pcids ↔ InRange pcid := by
  have lower : (pkmCntrMinPcid.setWidth 64).toNat = 10 := by decide
  have upper : pkmCntrMaxPcid.toNat = 100 := by decide
  simp only [pcids,List.mem_map,List.mem_range,InRange,BitVec.le_def,lower,upper,numPcids]
  constructor
  · rintro ⟨i,bound,rfl⟩
    rw [BitVec.toNat_ofNat]
    omega
  · rintro ⟨low,high⟩
    refine ⟨pcid.toNat - 10,by omega,?_⟩
    rw [Nat.sub_add_cancel low]
    exact BitVec.ofNat_toNat 64 pcid

theorem pcids_nodup : pcids.Nodup := by
  rw [pcids,List.Nodup,List.pairwise_map]
  refine List.nodup_range.imp_of_mem fun first second apart same => apart ?_
  have equal := congrArg BitVec.toNat same
  rw [List.mem_range,numPcids] at first second
  simp only [BitVec.toNat_ofNat] at equal
  omega

/-- Distinct members of a pool are all of it when they are as many. -/
theorem subset_iff_length {pool live : List Word} (distinct : pool.Nodup) (nodup : live.Nodup)
    (within : live ⊆ pool) : pool ⊆ live ↔ live.length = pool.length := by
  have most := List.Nodup.length_le_of_subset nodup within
  constructor
  · intro all
    exact Nat.le_antisymm most (List.Nodup.length_le_of_subset distinct all)
  · intro length pcid member
    refine Classical.byContradiction fun free => ?_
    have more := List.Nodup.length_le_of_subset (List.nodup_cons.mpr ⟨free,nodup⟩)
      (List.cons_subset.mpr ⟨member,within⟩)
    rw [List.length_cons] at more
    omega

/-- All of the range are held exactly when as many containers live as it has PCIDs. -/
theorem Sound.all_iff {s : Pcids} (sound : Sound s) :
    (∀ pcid, InRange pcid → pcid ∈ s.live) ↔ s.live.length = numPcids := by
  have size : pcids.length = numPcids := by rw [pcids,List.length_map,List.length_range]
  have within : s.live ⊆ pcids := fun pcid member => (mem_pcids pcid).mpr (sound.within pcid member)
  rw [← size,← subset_iff_length pcids_nodup sound.distinct within]
  constructor
  · intro all pcid member
    exact all pcid ((mem_pcids pcid).mp member)
  · intro all pcid range
    exact all ((mem_pcids pcid).mpr range)

/-! One step. -/

theorem start_sound : Sound .start := ⟨List.nodup_nil,nofun,nofun⟩

/-- A creation that fails otherwise leaves the containers as they are. -/
theorem fails_sound {s : Pcids} {outcome : Outcome Kmod Result} {next : BitVec 32} (sound : Sound s)
    (fails : Fails outcome next) : Sound (afterCreate s.live outcome) := by
  obtain ⟨r,other,⟨k,rfl,_⟩ | ⟨k,rfl,_⟩⟩ := fails
  · refine ⟨sound.distinct,sound.within,fun refused => absurd ?_ other⟩
    exact Option.some.inj refused
  · exact ⟨sound.distinct,sound.within,nofun⟩

theorem inRange_iff {next : BitVec 32} (within : next.setWidth 64 ≤ pkmCntrMaxPcid) :
    InRange (next.setWidth 64) ↔ pkmCntrMinPcid ≤ next := by
  have widths : (pkmCntrMinPcid.setWidth 64).toNat = pkmCntrMinPcid.toNat := by decide
  have width : (next.setWidth 64).toNat = next.toNat := by
    rw [BitVec.toNat_setWidth]
    omega
  simp only [InRange,within,and_true,BitVec.le_def,widths,width]

/-- A container with a PCID from the counter keeps the rest sound if the PCID is in range and
no other container has it. -/
theorem makes_sound {s : Pcids} {outcome : Outcome Kmod Result} {next : BitVec 32} (sound : Sound s)
    (within : s.next.setWidth 64 ≤ pkmCntrMaxPcid)
    (makes : Makes outcome (s.next.setWidth 64) next) : Sound (afterCreate s.live outcome) ↔
      pkmCntrMinPcid ≤ s.next ∧ s.next.setWidth 64 ∉ s.live := by
  have range := inRange_iff within
  obtain ⟨fd,cntr,k,rfl,nonnegative,pcid,_⟩ := makes
  rw [← pcid] at range ⊢
  constructor
  · intro after
    exact ⟨range.mp (after.within cntr.pcid List.mem_cons_self),
      (List.nodup_cons.mp after.distinct).1⟩
  · rintro ⟨least,free⟩
    refine ⟨List.nodup_cons.mpr ⟨free,sound.distinct⟩,?_,?_⟩
    · intro other member
      rcases List.mem_cons.mp member with rfl | old
      · exact range.mpr least
      · exact sound.within other old
    · intro refused
      have negative := Option.some.inj refused
      rw [eoverflow] at negative
      omega

theorem refused_sound {s : Pcids} {k : Kmod} (sound : Sound s) :
    Sound (afterCreate s.live (.ret (-eoverflow,none) k)) ↔ s.live.length = numPcids := by
  rw [← sound.all_iff]
  exact ⟨fun after => after.exhausted rfl,fun all => ⟨sound.distinct,sound.within,fun _ => all⟩⟩

theorem release_sound {s : Pcids} (sound : Sound s) (cntr : Cntr) : Sound (afterRelease s cntr) :=
  ⟨sound.distinct.erase _,fun pcid member => sound.within pcid (List.mem_of_mem_erase member),nofun⟩

theorem step_sound_iff {s t : Pcids} {event : PcidEvent} (sound : Sound s)
    (step : PcidStep s event t) : CounterFits s event ↔ Sound t := by
  cases event with
  | release cntr =>
    rw [step.2]
    exact iff_of_true trivial (release_sound sound cntr)
  | create env memory =>
    obtain ⟨documented,rfl⟩ := step
    rcases create_takes documented memory ⟨[],s.next⟩ with ⟨reaches,taken⟩ | ⟨early,fails⟩
    · cases taken with
      | refused k above ends _ =>
        rw [ends,refused_sound sound]
        simp only [CounterFits,if_neg (BitVec.not_le.mpr above)]
        exact ⟨fun fits => fits reaches,fun all _ => all⟩
      | failed within lacks fails =>
        refine iff_of_true ?_ (fails_sound sound fails)
        intro _
        rw [if_pos within]
        exact fun finishes => absurd finishes lacks
      | made within finishes makes =>
        rw [makes_sound sound within makes]
        simp only [CounterFits,if_pos within]
        exact ⟨fun fits => fits reaches finishes,fun fits _ _ => fits⟩
    · exact iff_of_true (fun reaches => absurd reaches early) (fails_sound sound fails)

/-- The runs in which PCIDs are sound throughout are those in which the counter fits wherever
a creation takes it. -/
theorem run_sound_iff (s : Pcids) (events : List PcidEvent) :
    Run (Guarded CounterFits PcidStep) .start events s ↔
      Run (fun s event t => PcidStep s event t ∧ Sound t) .start events s :=
  Run.guarded_iff Sound CounterFits (fun _ _ _ sound step => step_sound_iff sound step) start_sound

/-! A range that is used up. -/

def KeepsCounter {α : Type} (c : Call Kmod α) : Prop :=
  ∀ k, (c k).state.nextCntrPcid = k.nextCntrPcid

theorem keepsCounter_bind {α β : Type} {c : Call Kmod α} {f : α → Call Kmod β}
    (first : KeepsCounter c) (second : ∀ a, KeepsCounter (f a)) : KeepsCounter (c >>= f) := by
  intro k
  have kept := first k
  rw [Call.bind_apply]
  cases ends : c k with
  | ret a k' =>
    rw [ends] at kept
    exact (second a k').trans kept
  | bug k' =>
    rw [ends] at kept
    exact kept
  | fault k' =>
    rw [ends] at kept
    exact kept

theorem release_keepsCounter (resource : Resource) : KeepsCounter (release resource) := fun _ => rfl

theorem follow_keepsCounter {α : Type} (pointer : Option α) :
    KeepsCounter (Call.follow pointer : Call Kmod α) := by
  cases pointer <;> exact fun _ => rfl

theorem freeCpus_keepsCounter (cpus : Option Word) : KeepsCounter (freeCpus cpus) := by
  cases cpus <;> exact fun _ => rfl

theorem putEventfd_keepsCounter (ctx : Option Eventfd) : KeepsCounter (putEventfd ctx) := by
  cases ctx <;> exact fun _ => rfl

theorem freeBootPgtbl_keepsCounter (bootPgtbl : Option BootPgtbl) :
    KeepsCounter (freeBootPgtbl bootPgtbl) :=
  keepsCounter_bind (follow_keepsCounter bootPgtbl) fun _ _ => rfl

theorem freeBootParams_keepsCounter (bootParams : Option BootParams) :
    KeepsCounter (freeBootParams bootParams) :=
  keepsCounter_bind (follow_keepsCounter bootParams) fun _ _ => rfl

theorem deinitVirtioNet_keepsCounter (virtio : VirtioNet) : KeepsCounter (deinitVirtioNet virtio) :=
  keepsCounter_bind (putEventfd_keepsCounter _) fun _ =>
    keepsCounter_bind (putEventfd_keepsCounter _) fun _ =>
      keepsCounter_bind (putEventfd_keepsCounter _) fun _ => putEventfd_keepsCounter _

/-- A release gives no PCID back. -/
theorem pkmCntrRelease_keepsCounter (cntr : Cntr) : KeepsCounter (pkmCntrRelease cntr) :=
  keepsCounter_bind (release_keepsCounter _) fun _ =>
    keepsCounter_bind (release_keepsCounter _) fun _ =>
      keepsCounter_bind (release_keepsCounter _) fun _ =>
        keepsCounter_bind (freeBootPgtbl_keepsCounter _) fun _ =>
          keepsCounter_bind (freeBootParams_keepsCounter _) fun _ =>
            keepsCounter_bind (freeCpus_keepsCounter _) fun _ =>
              keepsCounter_bind (deinitVirtioNet_keepsCounter _) fun _ => release_keepsCounter _

theorem grants_documented : grants.Documented :=
  ⟨by decide,by decide,by decide,by decide,by decide⟩

theorem grants_reachesPcid : grants.ReachesPcid :=
  ⟨rfl,nofun,⟨rfl,rfl⟩,⟨rfl,rfl⟩,⟨rfl,rfl⟩,nofun,nofun⟩

theorem grants_finishes : grants.Finishes := ⟨nofun,nofun,nofun,by decide,rfl⟩

/-- A container that is created and released costs a PCID. -/
theorem createRelease_run {next : BitVec 32} (within : next.setWidth 64 ≤ pkmCntrMaxPcid) :
    ∃ events, Run PcidStep ⟨next,[],none⟩ events ⟨next + 1,[],none⟩ := by
  have created : PcidStep ⟨next,[],none⟩ (.create grants blankCntr) _ := ⟨grants_documented,rfl⟩
  rcases create_takes grants_documented blankCntr ⟨[],next⟩ with ⟨_,taken⟩ | ⟨early,_⟩
  · cases taken with
    | refused k above _ _ => exact absurd within (BitVec.not_le.mpr above)
    | failed _ lacks _ => exact absurd grants_finishes lacks
    | made _ _ makes =>
      obtain ⟨fd,cntr,k,ends,_,_,taken⟩ := makes
      rw [ends] at created
      have released : PcidStep (afterCreate [] (.ret (fd,some cntr) k)) (.release cntr) _ :=
        ⟨List.mem_cons_self,rfl⟩
      have after : afterRelease (afterCreate [] (.ret (fd,some cntr) k)) cntr =
          ⟨next + 1,[],none⟩ := by
        have kept := pkmCntrRelease_keepsCounter cntr ⟨[],next + 1⟩
        simp only [afterRelease,afterCreate,taken,kept,List.erase_cons_head]
      rw [after] at released
      exact ⟨_,.cons created (.single released)⟩
  · exact absurd grants_reachesPcid early

theorem createReleases_run (n : Nat) (few : n ≤ numPcids) :
    ∃ events, Run PcidStep .start events ⟨BitVec.ofNat 32 (10 + n),[],none⟩ := by
  induction n with
  | zero => exact ⟨[],.nil _⟩
  | succ n ih =>
    rw [numPcids] at few
    obtain ⟨events,run⟩ := ih (Nat.le_of_succ_le few)
    have within : (BitVec.ofNat 32 (10 + n)).setWidth 64 ≤ pkmCntrMaxPcid := by
      have upper : pkmCntrMaxPcid.toNat = 100 := by decide
      simp only [BitVec.le_def,upper,BitVec.toNat_setWidth,BitVec.toNat_ofNat]
      omega
    obtain ⟨more,last⟩ := createRelease_run within
    have following : BitVec.ofNat 32 (10 + n) + 1 = BitVec.ofNat 32 (10 + (n + 1)) := by
      rw [← Nat.add_assoc]
      exact (BitVec.ofNat_add _ _).symm
    rw [following] at last
    exact ⟨events ++ more,run.append last⟩

/-- After 91 containers that have been released again, a creation is refused while none
lives. -/
theorem refused_without_containers : ¬ ∀ (s : Pcids) (events : List PcidEvent),
    Run PcidStep .start events s → Sound s := by
  intro claim
  obtain ⟨events,run⟩ := createReleases_run numPcids (Nat.le_refl _)
  have next : BitVec.ofNat 32 (10 + numPcids) = 101 := rfl
  rw [next] at run
  rcases create_takes grants_documented blankCntr ⟨[],101⟩ with ⟨_,taken⟩ | ⟨early,_⟩
  · cases taken with
    | refused k _ ends _ =>
      have refused : PcidStep ⟨101,[],none⟩ (.create grants blankCntr) _ := ⟨grants_documented,rfl⟩
      rw [ends] at refused
      have sound := claim _ _ (run.append (.single refused))
      have held := sound.exhausted rfl pkmCntrMaxPcid ⟨by decide,by decide⟩
      exact absurd held List.not_mem_nil
    | failed within _ _ => exact absurd within (by decide)
    | made within _ _ => exact absurd within (by decide)
  · exact absurd grants_reachesPcid early

end Cki.Create
