import Cki.Create

/-! What the error path of `pkm_dev_ioctl_create_cntr` releases, label by label. -/
namespace Cki.Create

open Ledger Virtio

/-! The pages that a release finds through what is written to another page. -/

theorem pageToPhys_noFlags (frame : Frame) :
    pageToPhys frame &&& ~~~(pagePresent ||| pageRw) = pageToPhys frame := by
  apply BitVec.eq_of_getElem_eq
  intro i hi
  rw [BitVec.getElem_and]
  by_cases low : i < 12
  · have clear : (pageToPhys frame)[i] = false := by simp [pageToPhys,low]
    rw [clear,Bool.false_and]
  · have all : ∀ j : Fin 52, (~~~(pagePresent ||| pageRw)).getLsbD (j.val + 12) = true := by decide
    have kept := all ⟨i - 12,by omega⟩
    rw [Nat.sub_add_cancel (by omega),BitVec.getLsbD_eq_getElem hi] at kept
    rw [kept,Bool.and_true]

theorem entry0_page (frame : Frame) :
    (pagePresent ||| pageRw ||| pageToPhys frame) &&& ~~~(pagePresent ||| pageRw) =
      pageToPhys frame := by
  rw [BitVec.and_or_distrib_right,BitVec.and_not_self,pageToPhys_noFlags]
  exact BitVec.zero_or

theorem cmdline_page (addr : Word) :
    ((addr >>> 32).setWidth 32).setWidth 64 <<< 32 + (addr.setWidth 32).setWidth 64 = addr := by
  apply BitVec.eq_of_toNat_eq
  have bound := addr.isLt
  simp only [BitVec.toNat_add,BitVec.toNat_shiftLeft,BitVec.toNat_setWidth,BitVec.toNat_ushiftRight,
    Nat.shiftRight_eq_div_pow,Nat.shiftLeft_eq]
  omega

def BootPgtbl.pages (bootPgtbl : BootPgtbl) : List Resource :=
  [.page (bootPgtbl.entry0 &&& ~~~(pagePresent ||| pageRw)),.page bootPgtbl.addr]

def BootParams.pages (bootParams : BootParams) : List Resource :=
  [.page (bootParams.extCmdLinePtr.setWidth 64 <<< 32 + bootParams.cmdLinePtr.setWidth 64),
    .page bootParams.addr]

/-- What a container holds besides its processors, its boot pages and its descriptor. -/
def Cntr.pins (cntr : Cntr) : List Resource :=
  [.hpage cntr.initrdHpage,.hpage cntr.mem2Hpage,.hpage cntr.memHpage,.kmem cntr.addr]

/-! The labels. -/

/-- The call ends without a container and leaves these resources held. -/
def Leaves (outcome : Outcome Kmod Result) (held : List Resource) : Prop :=
  ∃ r k, outcome = .ret (r,none) k ∧ Holds k.log held

section
variable {cntr : Cntr} {r : Int} {k : Kmod} {held : List Resource}

theorem outFreeCntr_leaves (holds : Holds k.log (.kmem cntr.addr :: held)) :
    Leaves (outFreeCntr cntr r k) held := ⟨r,_,rfl,holds.release⟩

theorem outPutMemHpage_leaves
    (holds : Holds k.log (.hpage cntr.memHpage :: .kmem cntr.addr :: held)) :
    Leaves (outPutMemHpage cntr r k) held := outFreeCntr_leaves holds.release

theorem outPutMem2Hpage_leaves (holds : Holds k.log
    (.hpage cntr.mem2Hpage :: .hpage cntr.memHpage :: .kmem cntr.addr :: held)) :
    Leaves (outPutMem2Hpage cntr r k) held := outPutMemHpage_leaves holds.release

theorem outPutInitrdHpage_leaves (holds : Holds k.log (cntr.pins ++ held)) :
    Leaves (outPutInitrdHpage cntr r k) held := outPutMem2Hpage_leaves holds.release

theorem outFreeBootPgtbl_leaves {bootPgtbl : BootPgtbl} (built : cntr.bootPgtbl = some bootPgtbl)
    (holds : Holds k.log (bootPgtbl.pages ++ (cntr.pins ++ held))) :
    Leaves (outFreeBootPgtbl cntr r k) held := by
  rw [outFreeBootPgtbl,built]
  exact outPutInitrdHpage_leaves holds.release.release

theorem outFreeBootParams_leaves {bootPgtbl : BootPgtbl} {bootParams : BootParams}
    (built : cntr.bootPgtbl = some bootPgtbl) (given : cntr.bootParams = some bootParams)
    (holds : Holds k.log (bootParams.pages ++ (bootPgtbl.pages ++ (cntr.pins ++ held)))) :
    Leaves (outFreeBootParams cntr r k) held := by
  rw [outFreeBootParams,given]
  exact outFreeBootPgtbl_leaves built holds.release.release

theorem outFreeCpus_leaves {cpus : Word} {bootPgtbl : BootPgtbl} {bootParams : BootParams}
    (running : cntr.cpus = some cpus) (built : cntr.bootPgtbl = some bootPgtbl)
    (given : cntr.bootParams = some bootParams) (holds : Holds k.log
      (.kmem cpus :: (bootParams.pages ++ (bootPgtbl.pages ++ (cntr.pins ++ held))))) :
    Leaves (outFreeCpus cntr r k) held := by
  rw [outFreeCpus,running]
  exact outFreeBootParams_leaves built given holds.release

theorem outPutFd_leaves {fd : Int} {cpus : Word} {bootPgtbl : BootPgtbl} {bootParams : BootParams}
    (running : cntr.cpus = some cpus) (built : cntr.bootPgtbl = some bootPgtbl)
    (given : cntr.bootParams = some bootParams) (holds : Holds k.log (.fd fd ::
      .kmem cpus :: (bootParams.pages ++ (bootPgtbl.pages ++ (cntr.pins ++ held))))) :
    Leaves (outPutFd cntr fd r k) held := outFreeCpus_leaves running built given holds.release

end

/-! The four pieces of the call. -/

/-- A creation that fails returns, and has released what it had acquired, each resource once,
and nothing else. -/
def Atomic (outcome : Outcome Kmod Result) : Prop :=
  match outcome with
  | .ret (_,some _) _ => True
  | .ret (_,none) k => Balanced k.log
  | .bug _ | .fault _ => False

theorem Leaves.atomic {outcome : Outcome Kmod Result} (leaves : Leaves outcome []) :
    Atomic outcome := by
  obtain ⟨r,k,rfl,holds⟩ := leaves
  exact (balanced_iff_holds k.log).mpr holds

theorem Leaves.not_atomic {outcome : Outcome Kmod Result} {resource : Resource}
    {held : List Resource} (leaves : Leaves outcome (resource :: held)) : ¬ Atomic outcome := by
  obtain ⟨r,k,rfl,holds⟩ := leaves
  exact holds.not_balanced

/-- Without a descriptor the call goes past the release of the processors. -/
theorem installFd_atomic (env : Env) (cntr : Cntr) {k : Kmod} {cpus : Word} {bootPgtbl : BootPgtbl}
    {bootParams : BootParams} (running : cntr.cpus = some cpus)
    (built : cntr.bootPgtbl = some bootPgtbl) (given : cntr.bootParams = some bootParams)
    (holds : Holds k.log
      (bootParams.pages ++ Resource.kmem cpus :: (bootPgtbl.pages ++ cntr.pins))) :
    Atomic (installFd env cntr k) ↔ 0 ≤ env.fd := by
  by_cases negative : env.fd < 0
  · refine iff_of_false ?_ (Int.not_le.mpr negative)
    rw [installFd,if_pos negative]
    have last : (bootParams.pages ++ Resource.kmem cpus :: (bootPgtbl.pages ++ cntr.pins)).Perm
        (bootParams.pages ++ (bootPgtbl.pages ++ (cntr.pins ++ [Resource.kmem cpus]))) := by
      rw [← List.append_assoc bootPgtbl.pages]
      exact (List.perm_append_singleton _ _).symm.append_left _
    exact (outFreeBootParams_leaves built given (holds.perm last)).not_atomic
  · refine iff_of_true ?_ (Int.not_lt.mp negative)
    rw [installFd,if_neg negative]
    cases file : env.file with
    | none => trivial
    | some error =>
      have first : (bootParams.pages ++ Resource.kmem cpus :: (bootPgtbl.pages ++ cntr.pins)).Perm
          (Resource.kmem cpus :: (bootParams.pages ++ (bootPgtbl.pages ++ (cntr.pins ++ [])))) := by
        rw [List.append_nil]
        exact List.perm_middle
      exact (outPutFd_leaves running built given ((holds.perm first).acquire _)).atomic

/-- Boot parameters, with their pages, or none and nothing besides what was held. -/
theorem createBootParams_holds (env : Env) (cntr : Cntr) {k : Kmod} {held : List Resource}
    (holds : Holds k.log held) :
    (env.bootParams = none ∨ env.cmdline = none) ∧
      (∃ k', createBootParams env cntr k = .ret none k') ∨
    env.bootParams ≠ none ∧ env.cmdline ≠ none ∧ ∃ bootParams k',
      createBootParams env cntr k = .ret (some bootParams) k' ∧
      Holds k'.log (bootParams.pages ++ held) := by
  cases first : env.bootParams with
  | none =>
    refine .inl ⟨.inl rfl,k,?_⟩
    simp only [createBootParams,first]
    rfl
  | some frame =>
    cases second : env.cmdline with
    | none =>
      refine .inl ⟨.inr rfl,?_⟩
      simp only [createBootParams,first,second]
      exact ⟨_,rfl⟩
    | some cmdline =>
      refine .inr ⟨nofun,nofun,?_⟩
      simp only [createBootParams,first,second]
      refine ⟨_,_,rfl,?_⟩
      simp only [BootParams.pages,cmdline_page]
      exact (holds.acquire _).acquire _

/-- Without boot parameters the call goes on to release them. -/
theorem fillBootParams_atomic (env : Env) (cntr : Cntr) {k : Kmod} {cpus : Word}
    {bootPgtbl : BootPgtbl} (running : cntr.cpus = some cpus)
    (built : cntr.bootPgtbl = some bootPgtbl)
    (holds : Holds k.log (Resource.kmem cpus :: (bootPgtbl.pages ++ cntr.pins))) :
    Atomic (fillBootParams env cntr k) ↔
      env.bootParams ≠ none ∧ env.cmdline ≠ none ∧ 0 ≤ env.fd := by
  rcases createBootParams_holds env cntr holds with
    ⟨missing,k',none⟩ | ⟨params,cmdline,bootParams,k',some,holds'⟩
  · refine iff_of_false ?_ fun all => missing.elim all.1 all.2.1
    rw [fillBootParams,Call.ret_bind none]
    obtain ⟨t,faults⟩ : ∃ t,
        outFreeCpus { cntr with bootParams := .none } (-enomem) k' = .fault t := by
      rw [outFreeCpus,running]
      exact ⟨_,rfl⟩
    simp only [if_true,faults]
    exact id
  · rw [fillBootParams,Call.ret_bind some]
    simp only [reduceCtorEq,if_false]
    refine (installFd_atomic env { cntr with
      bootParams := bootParams, virtioNet := initVirtioNet cntr.virtioNet } running built rfl
      holds').trans ?_
    exact ⟨fun fd => ⟨params,cmdline,fd⟩,fun all => all.2.2⟩

theorem fillCpus_atomic (env : Env) (cntr : Cntr) {k : Kmod} {bootPgtbl : BootPgtbl}
    (built : cntr.bootPgtbl = some bootPgtbl)
    (holds : Holds k.log (bootPgtbl.pages ++ cntr.pins)) : Atomic (fillCpus env cntr k) ↔
      (env.cpus ≠ none → env.bootParams ≠ none ∧ env.cmdline ≠ none ∧ 0 ≤ env.fd) := by
  cases cpus : env.cpus with
  | none =>
    refine iff_of_true ?_ nofun
    rw [fillCpus,Call.ret_bind (createCpus_none cpus k)]
    simp only [if_true]
    rw [← List.append_nil cntr.pins] at holds
    have leaves : Leaves (outFreeBootPgtbl { cntr with cpus := none } (-enomem) k) [] :=
      outFreeBootPgtbl_leaves built holds
    exact leaves.atomic
  | some addr =>
    rw [fillCpus,Call.ret_bind (createCpus_some cpus k)]
    simp only [reduceCtorEq,if_false]
    refine (fillBootParams_atomic env { cntr with cpus := addr } rfl built
      (holds.acquire _)).trans ?_
    exact ⟨fun all _ => all,fun all => all nofun⟩

theorem takePcid_atomic (env : Env) (cntr : Cntr) {k : Kmod} {bootPgtbl : BootPgtbl}
    (built : cntr.bootPgtbl = some bootPgtbl)
    (holds : Holds k.log (bootPgtbl.pages ++ cntr.pins)) : Atomic (takePcid env cntr k) ↔
      (k.nextCntrPcid.setWidth 64 ≤ pkmCntrMaxPcid → env.cpus ≠ none →
        env.bootParams ≠ none ∧ env.cmdline ≠ none ∧ 0 ≤ env.fd) := by
  by_cases above : k.nextCntrPcid.setWidth 64 > pkmCntrMaxPcid
  · refine iff_of_true ?_ fun within => absurd above (BitVec.not_lt.mpr within)
    rw [takePcid,Call.ret_bind (nextPcid_apply k)]
    simp only [above,if_true]
    rw [← List.append_nil cntr.pins] at holds
    have leaves : Leaves (outFreeBootPgtbl { cntr with pcid := k.nextCntrPcid.setWidth 64 }
        (-eoverflow) { k with nextCntrPcid := k.nextCntrPcid + 1 }) [] :=
      outFreeBootPgtbl_leaves built holds
    exact leaves.atomic
  · rw [takePcid,Call.ret_bind (nextPcid_apply k)]
    simp only [above,if_false]
    refine (fillCpus_atomic env { cntr with pcid := k.nextCntrPcid.setWidth 64 }
      (k := { k with nextCntrPcid := k.nextCntrPcid + 1 }) built holds).trans ?_
    exact ⟨fun all _ => all,fun all => all (BitVec.not_lt.mp above)⟩

theorem createBootPgtbl_holds (env : Env) {k : Kmod} {held : List Resource}
    (holds : Holds k.log held) :
    (env.bootPgtbl = none ∨ env.bootPud = none) ∧
      (∃ k', createBootPgtbl env k = .ret none k' ∧ Holds k'.log held) ∨
    env.bootPgtbl ≠ none ∧ env.bootPud ≠ none ∧ ∃ bootPgtbl k',
      createBootPgtbl env k = .ret (some bootPgtbl) k' ∧
      k'.nextCntrPcid = k.nextCntrPcid ∧ Holds k'.log (bootPgtbl.pages ++ held) := by
  cases first : env.bootPgtbl with
  | none =>
    refine .inl ⟨.inl rfl,k,?_,holds⟩
    simp only [createBootPgtbl,first]
    rfl
  | some frame =>
    cases second : env.bootPud with
    | none =>
      refine .inl ⟨.inr rfl,?_⟩
      simp only [createBootPgtbl,first,second]
      exact ⟨_,rfl,(holds.acquire _).release⟩
    | some bootPud =>
      refine .inr ⟨nofun,nofun,?_⟩
      simp only [createBootPgtbl,first,second]
      refine ⟨_,_,rfl,rfl,?_⟩
      simp only [BootPgtbl.pages,entry0_page]
      exact (holds.acquire _).acquire _

theorem fillBootPgtbl_atomic (env : Env) (cntr : Cntr) {k : Kmod} (holds : Holds k.log cntr.pins) :
    Atomic (fillBootPgtbl env cntr k) ↔ (env.bootPgtbl ≠ none → env.bootPud ≠ none →
      k.nextCntrPcid.setWidth 64 ≤ pkmCntrMaxPcid → env.cpus ≠ none →
        env.bootParams ≠ none ∧ env.cmdline ≠ none ∧ 0 ≤ env.fd) := by
  rcases createBootPgtbl_holds env holds with
    ⟨missing,k',none,holds'⟩ | ⟨first,second,bootPgtbl,k',some,next,holds'⟩
  · refine iff_of_true ?_ fun first second => missing.elim (absurd · first) (absurd · second)
    rw [fillBootPgtbl,Call.ret_bind none]
    rw [← List.append_nil cntr.pins] at holds'
    have leaves : Leaves (outPutInitrdHpage { cntr with bootPgtbl := .none } (-enomem) k') [] :=
      outPutInitrdHpage_leaves holds'
    exact leaves.atomic
  · rw [fillBootPgtbl,Call.ret_bind some]
    simp only [reduceCtorEq,if_false]
    apply (takePcid_atomic env { cntr with bootPgtbl := bootPgtbl } rfl holds').trans
    rw [next]
    exact ⟨fun all _ _ => all,fun all => all first second⟩

/-- A page that is not accepted is released if it was pinned. -/
theorem pin_atomic {pin : Pin} {npages : Nat} {k : Kmod} {rest : Prop} {held : List Resource}
    {unpinned wrong next : Call Kmod Result} (holds : Holds k.log held)
    (failed : Leaves (unpinned k) [])
    (small : ∀ k', Holds k'.log (.hpage pin.page :: held) → Leaves (wrong k') [])
    (accepted : ∀ k', k'.nextCntrPcid = k.nextCntrPcid → Holds k'.log (.hpage pin.page :: held) →
      (Atomic (next k') ↔ rest)) :
    Atomic ((if pin.result ≠ 1 then unpinned
      else do
        acquire (.hpage pin.page)
        if pin.compoundNr ≠ npages then wrong else next) k) ↔ (pin.Accepted npages → rest) := by
  rcases pin_cases pin npages unpinned wrong next k with
    ⟨result,outcome⟩ | ⟨_,number,outcome⟩ | ⟨accepts,outcome⟩
  · rw [outcome]
    exact iff_of_true failed.atomic fun accepts => absurd accepts.1 result
  · rw [outcome]
    exact iff_of_true (small _ (holds.acquire _)).atomic fun accepts => absurd accepts.2 number
  · rw [outcome]
    refine (accepted { k with log := k.log ++ [.acquire (.hpage pin.page)] } rfl
      (holds.acquire _)).trans ?_
    exact (imp_iff_right accepts).symm

theorem pinInitrd_atomic (env : Env) (cntr : Cntr) {k : Kmod} (holds : Holds k.log
    [.hpage cntr.mem2Hpage,.hpage cntr.memHpage,.kmem cntr.addr]) :
    Atomic (pinInitrd env cntr k) ↔ (env.initrd.Accepted pkmCntrInitrdNpages →
      env.bootPgtbl ≠ none → env.bootPud ≠ none → k.nextCntrPcid.setWidth 64 ≤ pkmCntrMaxPcid →
      env.cpus ≠ none → env.bootParams ≠ none ∧ env.cmdline ≠ none ∧ 0 ≤ env.fd) := by
  refine pin_atomic holds (outPutMem2Hpage_leaves holds) ?_ ?_
  · intro k' holds'
    exact outPutInitrdHpage_leaves holds'
  · intro k' next holds'
    rw [← next]
    exact fillBootPgtbl_atomic env { cntr with initrdHpage := env.initrd.page } holds'

theorem pinMem2_atomic (env : Env) (cntr : Cntr) {k : Kmod} (holds : Holds k.log
    [.hpage cntr.memHpage,.kmem cntr.addr]) :
    Atomic (pinMem2 env cntr k) ↔ (env.mem2.Accepted pkmCntrMemNpages →
      env.initrd.Accepted pkmCntrInitrdNpages →
      env.bootPgtbl ≠ none → env.bootPud ≠ none → k.nextCntrPcid.setWidth 64 ≤ pkmCntrMaxPcid →
      env.cpus ≠ none → env.bootParams ≠ none ∧ env.cmdline ≠ none ∧ 0 ≤ env.fd) := by
  refine pin_atomic holds (outPutMemHpage_leaves holds) ?_ ?_
  · intro k' holds'
    exact outPutMem2Hpage_leaves holds'
  · intro k' next holds'
    rw [← next]
    exact pinInitrd_atomic env { cntr with mem2Hpage := env.mem2.page } holds'

theorem pinMem_atomic (env : Env) (cntr : Cntr) {k : Kmod} (holds : Holds k.log
    [.kmem cntr.addr]) :
    Atomic (pinMem env cntr k) ↔ (env.mem.Accepted pkmCntrMemNpages →
      env.mem2.Accepted pkmCntrMemNpages → env.initrd.Accepted pkmCntrInitrdNpages →
      env.bootPgtbl ≠ none → env.bootPud ≠ none → k.nextCntrPcid.setWidth 64 ≤ pkmCntrMaxPcid →
      env.cpus ≠ none → env.bootParams ≠ none ∧ env.cmdline ≠ none ∧ 0 ≤ env.fd) := by
  refine pin_atomic holds (outFreeCntr_leaves holds) ?_ ?_
  · intro k' holds'
    exact outPutMemHpage_leaves holds'
  · intro k' next holds'
    rw [← next]
    exact pinMem2_atomic env { cntr with memHpage := env.mem.page } holds'

/-- A creation that fails releases what it has acquired, except where boot parameters or
descriptor fail: there the goto is to the neighbouring label. -/
theorem create_atomic_iff (env : Env) (memory : Cntr) (nextCntrPcid : BitVec 32) :
    Atomic (pkmDevIoctlCreateCntr env memory ⟨[],nextCntrPcid⟩) ↔
      (env.ReachesBootParams nextCntrPcid →
        env.bootParams ≠ none ∧ env.cmdline ≠ none ∧ 0 ≤ env.fd) := by
  by_cases uncopied : env.notCopied ≠ 0
  · refine iff_of_true ?_ fun reaches => absurd reaches.copied uncopied
    rw [pkmDevIoctlCreateCntr,if_pos uncopied]
    exact (balanced_iff_holds []).mpr holds_nil
  · rw [pkmDevIoctlCreateCntr,if_neg uncopied]
    cases cntr : env.cntr with
    | none =>
      refine iff_of_true ?_ fun reaches => absurd cntr reaches.cntr
      exact (balanced_iff_holds []).mpr holds_nil
    | some addr =>
      refine (pinMem_atomic env { memory with addr := addr, nCpus := env.numOnlineCpus }
        (holds_nil.acquire _)).trans ?_
      constructor
      · intro all reaches
        exact all reaches.mem reaches.mem2 reaches.initrd reaches.bootPgtbl reaches.bootPud
          reaches.pcid reaches.cpus
      · intro all mem mem2 initrd bootPgtbl bootPud pcid cpus
        have some : env.cntr ≠ none := by
          rw [cntr]
          nofun
        exact all ⟨⟨Classical.not_not.mp uncopied,some,mem,mem2,initrd,bootPgtbl,bootPud⟩,pcid,cpus⟩

/-- Without a descriptor the processors are never released. -/
theorem create_leaks_cpus : ¬ ∀ (env : Env) (memory : Cntr) (nextCntrPcid : BitVec 32),
    Atomic (pkmDevIoctlCreateCntr env memory ⟨[],nextCntrPcid⟩) := by
  intro claim
  obtain ⟨r,k,fails,leaks⟩ : ∃ r k, pkmDevIoctlCreateCntr { grants with fd := -24 } blankCntr
      ⟨[],pkmCntrMinPcid⟩ = .ret (r,none) k ∧ settle [] k.log = some [.kmem 0x4000] :=
    ⟨_,_,rfl,by decide⟩
  have atomic := claim { grants with fd := -24 } blankCntr pkmCntrMinPcid
  rw [fails] at atomic
  have settled := (balanced_iff k.log).mp atomic
  rw [leaks] at settled
  cases settled

end Cki.Create
