import Cki.Create

/-! How `pkm_dev_ioctl_create_cntr` ends, by what the kernel answers and what
`next_cntr_pcid` holds: with which result, whether with a container, and what it leaves of
the counter. -/
namespace Cki.Create

open Ledger Virtio

/-- The functions of the kernel that the call passes a result of do not answer -EOVERFLOW. -/
structure Env.Documented (env : Env) : Prop where
  mem : env.mem.result ≠ -eoverflow
  mem2 : env.mem2.result ≠ -eoverflow
  initrd : env.initrd.result ≠ -eoverflow
  fd : env.fd ≠ -eoverflow
  file : env.file ≠ some (-eoverflow)

/-- The call ends with `r` and without a container, or does not return, and the counter holds
`next`. -/
def Ends (outcome : Outcome Kmod Result) (r : Int) (next : BitVec 32) : Prop :=
  (∃ k, outcome = .ret (r,none) k ∧ k.nextCntrPcid = next) ∨
    ∃ k, outcome = .fault k ∧ k.nextCntrPcid = next

/-- The call returns a descriptor and leaves a container with this PCID. -/
def Makes (outcome : Outcome Kmod Result) (pcid : Word) (next : BitVec 32) : Prop :=
  ∃ fd cntr k, outcome = .ret (fd,some cntr) k ∧ 0 ≤ fd ∧ cntr.pcid = pcid ∧ k.nextCntrPcid = next

section
variable (cntr : Cntr) (r : Int) (k : Kmod)

theorem outPutInitrdHpage_ends :
    ∃ k', outPutInitrdHpage cntr r k = .ret (r,none) k' ∧ k'.nextCntrPcid = k.nextCntrPcid :=
  ⟨_,rfl,rfl⟩

theorem outFreeBootPgtbl_ends : Ends (outFreeBootPgtbl cntr r k) r k.nextCntrPcid := by
  cases built : cntr.bootPgtbl with
  | none =>
    rw [outFreeBootPgtbl,built]
    exact .inr ⟨_,rfl,rfl⟩
  | some bootPgtbl =>
    rw [outFreeBootPgtbl,built]
    exact .inl ⟨_,rfl,rfl⟩

theorem outFreeBootParams_ends : Ends (outFreeBootParams cntr r k) r k.nextCntrPcid := by
  cases given : cntr.bootParams with
  | none =>
    rw [outFreeBootParams,given]
    exact .inr ⟨_,rfl,rfl⟩
  | some bootParams =>
    rw [outFreeBootParams,given]
    exact outFreeBootPgtbl_ends cntr r _

theorem outFreeCpus_ends : Ends (outFreeCpus cntr r k) r k.nextCntrPcid := by
  cases running : cntr.cpus with
  | none =>
    rw [outFreeCpus,running]
    exact outFreeBootParams_ends cntr r k
  | some cpus =>
    rw [outFreeCpus,running]
    exact outFreeBootParams_ends cntr r _

end

/-- A failure other than for want of a PCID. -/
def Fails (outcome : Outcome Kmod Result) (next : BitVec 32) : Prop :=
  ∃ r, r ≠ -eoverflow ∧ Ends outcome r next

theorem enomem_ne : -enomem ≠ -eoverflow := by decide
theorem einval_ne : -einval ≠ -eoverflow := by decide

theorem installFd_ends {env : Env} (documented : env.Documented) (cntr : Cntr) (k : Kmod) :
    ¬ (0 ≤ env.fd ∧ env.file = none) ∧ Fails (installFd env cntr k) k.nextCntrPcid ∨
      (0 ≤ env.fd ∧ env.file = none) ∧ Makes (installFd env cntr k) cntr.pcid k.nextCntrPcid := by
  by_cases negative : env.fd < 0
  · refine .inl ⟨fun both => Int.not_le.mpr negative both.1,env.fd,documented.fd,?_⟩
    rw [installFd,if_pos negative]
    exact outFreeBootParams_ends cntr env.fd k
  · rw [installFd,if_neg negative]
    cases file : env.file with
    | some error =>
      refine .inl ⟨fun both => (nomatch both.2),error,?_,?_⟩
      · rintro rfl
        exact documented.file file
      · exact outFreeCpus_ends cntr error _
    | none => exact .inr ⟨⟨Int.not_lt.mp negative,rfl⟩,_,_,_,rfl,Int.not_lt.mp negative,rfl,rfl⟩

theorem createBootParams_next (env : Env) (cntr : Cntr) (k : Kmod) :
    ∃ bootParams k', createBootParams env cntr k = .ret bootParams k' ∧
      k'.nextCntrPcid = k.nextCntrPcid ∧
      (bootParams = none ↔ ¬ (env.bootParams ≠ none ∧ env.cmdline ≠ none)) := by
  cases first : env.bootParams with
  | none =>
    simp only [createBootParams,first]
    exact ⟨_,_,rfl,rfl,by simp⟩
  | some frame =>
    cases second : env.cmdline with
    | none =>
      simp only [createBootParams,first,second]
      exact ⟨_,_,rfl,rfl,by simp⟩
    | some cmdline =>
      simp only [createBootParams,first,second]
      exact ⟨_,_,rfl,rfl,by simp⟩

theorem fillBootParams_ends {env : Env} (documented : env.Documented) (cntr : Cntr) (k : Kmod) :
    ¬ (env.bootParams ≠ none ∧ env.cmdline ≠ none ∧ 0 ≤ env.fd ∧ env.file = none) ∧
        Fails (fillBootParams env cntr k) k.nextCntrPcid ∨
      (env.bootParams ≠ none ∧ env.cmdline ≠ none ∧ 0 ≤ env.fd ∧ env.file = none) ∧
        Makes (fillBootParams env cntr k) cntr.pcid k.nextCntrPcid := by
  obtain ⟨bootParams,k',ends,next,missing⟩ := createBootParams_next env cntr k
  rw [fillBootParams,Call.ret_bind ends,← next]
  by_cases none : bootParams = .none
  · refine .inl ⟨fun all => missing.mp none ⟨all.1,all.2.1⟩,-enomem,enomem_ne,?_⟩
    rw [if_pos none]
    exact outFreeCpus_ends _ _ k'
  · obtain ⟨params,cmdline⟩ := Classical.not_not.mp fun lacks => none (missing.mpr lacks)
    rw [if_neg none]
    rcases installFd_ends documented { cntr with
        bootParams := bootParams, virtioNet := initVirtioNet cntr.virtioNet } k' with
      ⟨lacks,fails⟩ | ⟨has,makes⟩
    · exact .inl ⟨fun all => lacks all.2.2,fails⟩
    · exact .inr ⟨⟨params,cmdline,has⟩,makes⟩

theorem fillCpus_ends {env : Env} (documented : env.Documented) (cntr : Cntr) (k : Kmod) :
    ¬ env.Finishes ∧ Fails (fillCpus env cntr k) k.nextCntrPcid ∨
      env.Finishes ∧ Makes (fillCpus env cntr k) cntr.pcid k.nextCntrPcid := by
  cases cpus : env.cpus with
  | none =>
    refine .inl ⟨fun finishes => finishes.cpus cpus,-enomem,enomem_ne,?_⟩
    rw [fillCpus,Call.ret_bind (createCpus_none cpus k),if_pos rfl]
    exact outFreeBootPgtbl_ends _ _ k
  | some addr =>
    rw [fillCpus,Call.ret_bind (createCpus_some cpus k),if_neg nofun]
    rcases fillBootParams_ends documented { cntr with cpus := addr }
        { k with log := k.log ++ [.acquire (.kmem addr)] } with ⟨lacks,fails⟩ | ⟨has,makes⟩
    · refine .inl ⟨fun finishes => lacks ?_,fails⟩
      exact ⟨finishes.bootParams,finishes.cmdline,finishes.fd,finishes.file⟩
    · refine .inr ⟨⟨?_,has.1,has.2.1,has.2.2.1,has.2.2.2⟩,makes⟩
      rw [cpus]
      nofun

/-- What becomes of a creation that takes `next` from the counter. -/
inductive Taken (env : Env) (next : BitVec 32) (outcome : Outcome Kmod Result) : Prop where
  | refused (k : Kmod) : pkmCntrMaxPcid < next.setWidth 64 →
      outcome = .ret (-eoverflow,none) k → k.nextCntrPcid = next + 1 → Taken env next outcome
  | failed : next.setWidth 64 ≤ pkmCntrMaxPcid → ¬ env.Finishes → Fails outcome (next + 1) →
      Taken env next outcome
  | made : next.setWidth 64 ≤ pkmCntrMaxPcid → env.Finishes →
      Makes outcome (next.setWidth 64) (next + 1) → Taken env next outcome

/-- The counter is left alone unless the call gets to it. -/
def Takes (reaches : Prop) (env : Env) (next : BitVec 32) (outcome : Outcome Kmod Result) : Prop :=
  reaches ∧ Taken env next outcome ∨ ¬ reaches ∧ Fails outcome next

theorem takePcid_taken {env : Env} (documented : env.Documented) {cntr : Cntr} (k : Kmod)
    (built : cntr.bootPgtbl ≠ none) : Taken env k.nextCntrPcid (takePcid env cntr k) := by
  rw [takePcid,Call.ret_bind (nextPcid_apply k)]
  by_cases above : k.nextCntrPcid.setWidth 64 > pkmCntrMaxPcid
  · obtain ⟨bootPgtbl,some⟩ := Option.ne_none_iff_exists'.mp built
    rw [if_pos above,outFreeBootPgtbl,some]
    exact .refused _ above rfl rfl
  · rw [if_neg above]
    rcases fillCpus_ends documented { cntr with pcid := k.nextCntrPcid.setWidth 64 }
        { k with nextCntrPcid := k.nextCntrPcid + 1 } with ⟨lacks,fails⟩ | ⟨finishes,makes⟩
    · exact .failed (BitVec.not_lt.mp above) lacks fails
    · exact .made (BitVec.not_lt.mp above) finishes makes

theorem createBootPgtbl_next (env : Env) (k : Kmod) :
    ∃ bootPgtbl k', createBootPgtbl env k = .ret bootPgtbl k' ∧
      k'.nextCntrPcid = k.nextCntrPcid ∧
      (bootPgtbl = none ↔ ¬ (env.bootPgtbl ≠ none ∧ env.bootPud ≠ none)) := by
  cases first : env.bootPgtbl with
  | none =>
    simp only [createBootPgtbl,first]
    exact ⟨_,_,rfl,rfl,by simp⟩
  | some frame =>
    cases second : env.bootPud with
    | none =>
      simp only [createBootPgtbl,first,second]
      exact ⟨_,_,rfl,rfl,by simp⟩
    | some bootPud =>
      simp only [createBootPgtbl,first,second]
      exact ⟨_,_,rfl,rfl,by simp⟩

theorem fillBootPgtbl_takes {env : Env} (documented : env.Documented) (cntr : Cntr) (k : Kmod) :
    Takes (env.bootPgtbl ≠ none ∧ env.bootPud ≠ none) env k.nextCntrPcid
      (fillBootPgtbl env cntr k) := by
  obtain ⟨bootPgtbl,k',ends,next,missing⟩ := createBootPgtbl_next env k
  rw [fillBootPgtbl,Call.ret_bind ends,← next]
  by_cases none : bootPgtbl = .none
  · refine .inr ⟨missing.mp none,-enomem,enomem_ne,?_⟩
    rw [if_pos none]
    exact .inl (outPutInitrdHpage_ends _ _ k')
  · rw [if_neg none]
    refine .inl ⟨Classical.not_not.mp fun lacks => none (missing.mpr lacks),?_⟩
    exact takePcid_taken documented k' none

/-- A page that is not accepted ends the call before the counter. -/
theorem pin_takes {env : Env} {pin : Pin} {npages : Nat} {k : Kmod} {reaches : Prop}
    {unpinned wrong next : Call Kmod Result}
    (failed : pin.result ≠ 1 → Fails (unpinned k) k.nextCntrPcid)
    (small : ∀ k', Ends (wrong k') (-einval) k'.nextCntrPcid)
    (accepted : ∀ k', Takes reaches env k'.nextCntrPcid (next k')) :
    Takes (pin.Accepted npages ∧ reaches) env k.nextCntrPcid
      ((if pin.result ≠ 1 then unpinned
      else do
        acquire (.hpage pin.page)
        if pin.compoundNr ≠ npages then wrong else next) k) := by
  rcases pin_cases pin npages unpinned wrong next k with
    ⟨result,outcome⟩ | ⟨_,number,outcome⟩ | ⟨accepts,outcome⟩
  · rw [outcome]
    exact .inr ⟨fun both => result both.1.1,failed result⟩
  · rw [outcome]
    exact .inr ⟨fun both => number both.1.2,-einval,einval_ne,small _⟩
  · rw [outcome]
    rcases accepted { k with log := k.log ++ [.acquire (.hpage pin.page)] } with
      ⟨rest,taken⟩ | ⟨lacks,fails⟩
    · exact .inl ⟨⟨accepts,rest⟩,taken⟩
    · exact .inr ⟨fun both => lacks both.2,fails⟩

theorem pinInitrd_takes {env : Env} (documented : env.Documented) (cntr : Cntr) (k : Kmod) :
    Takes (env.initrd.Accepted pkmCntrInitrdNpages ∧ env.bootPgtbl ≠ none ∧ env.bootPud ≠ none) env
      k.nextCntrPcid (pinInitrd env cntr k) :=
  pin_takes (fun _ => ⟨_,documented.initrd,.inl ⟨_,rfl,rfl⟩⟩) (fun _ => .inl ⟨_,rfl,rfl⟩)
    fun k' => fillBootPgtbl_takes documented _ k'

theorem pinMem2_takes {env : Env} (documented : env.Documented) (cntr : Cntr) (k : Kmod) :
    Takes (env.mem2.Accepted pkmCntrMemNpages ∧ env.initrd.Accepted pkmCntrInitrdNpages ∧
      env.bootPgtbl ≠ none ∧ env.bootPud ≠ none) env k.nextCntrPcid (pinMem2 env cntr k) :=
  pin_takes (fun _ => ⟨_,documented.mem2,.inl ⟨_,rfl,rfl⟩⟩) (fun _ => .inl ⟨_,rfl,rfl⟩)
    fun k' => pinInitrd_takes documented _ k'

theorem pinMem_takes {env : Env} (documented : env.Documented) (cntr : Cntr) (k : Kmod) :
    Takes (env.mem.Accepted pkmCntrMemNpages ∧ env.mem2.Accepted pkmCntrMemNpages ∧
      env.initrd.Accepted pkmCntrInitrdNpages ∧ env.bootPgtbl ≠ none ∧ env.bootPud ≠ none) env
      k.nextCntrPcid (pinMem env cntr k) :=
  pin_takes (fun _ => ⟨_,documented.mem,.inl ⟨_,rfl,rfl⟩⟩) (fun _ => .inl ⟨_,rfl,rfl⟩)
    fun k' => pinMem2_takes documented _ k'

theorem create_takes {env : Env} (documented : env.Documented) (memory : Cntr) (k : Kmod) :
    Takes env.ReachesPcid env k.nextCntrPcid (pkmDevIoctlCreateCntr env memory k) := by
  by_cases uncopied : env.notCopied ≠ 0
  · rw [pkmDevIoctlCreateCntr,if_pos uncopied]
    refine .inr ⟨fun reaches => uncopied reaches.copied,_,?_,.inl ⟨_,rfl,rfl⟩⟩
    rw [eoverflow]
    omega
  · rw [pkmDevIoctlCreateCntr,if_neg uncopied]
    cases cntr : env.cntr with
    | none => exact .inr ⟨fun reaches => reaches.cntr cntr,_,enomem_ne,.inl ⟨_,rfl,rfl⟩⟩
    | some addr =>
      rcases pinMem_takes documented { memory with addr := addr, nCpus := env.numOnlineCpus }
          { k with log := k.log ++ [.acquire (.kmem addr)] } with
        ⟨⟨mem,mem2,initrd,bootPgtbl,bootPud⟩,taken⟩ | ⟨lacks,fails⟩
      · exact .inl ⟨⟨Classical.not_not.mp uncopied,by rw [cntr]; nofun,mem,mem2,initrd,bootPgtbl,
          bootPud⟩,taken⟩
      · refine .inr ⟨fun reaches => lacks ?_,fails⟩
        exact ⟨reaches.mem,reaches.mem2,reaches.initrd,reaches.bootPgtbl,reaches.bootPud⟩

end Cki.Create
