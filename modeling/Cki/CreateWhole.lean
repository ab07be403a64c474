import Cki.Create

/-! What a container is made of once `pkm_dev_ioctl_create_cntr` has returned it. -/
namespace Cki.Create

open Virtio

/-- Nothing is missing, and the device is as `init_virtio_net` leaves this memory. -/
structure Cntr.Whole (memory : VirtioNet) (cntr : Cntr) : Prop where
  bootPgtbl : cntr.bootPgtbl ≠ none
  bootParams : cntr.bootParams ≠ none
  cpus : cntr.cpus ≠ none
  virtioNet : cntr.virtioNet = initVirtioNet memory

/-- Its blocks are the pages that were pinned. -/
structure Cntr.Made (memory : VirtioNet) (mem mem2 initrd : Frame) (cntr : Cntr) : Prop
    extends Cntr.Whole memory cntr where
  memHpage : cntr.memHpage = mem
  mem2Hpage : cntr.mem2Hpage = mem2
  initrdHpage : cntr.initrdHpage = initrd

/-- A container that the call returns is as `post` says. -/
def Yields (post : Cntr → Prop) (c : Call Kmod Result) : Prop :=
  ∀ k r cntr k', c k = .ret (r,some cntr) k' → post cntr

variable {post : Cntr → Prop}

theorem yields_bind {α : Type} {c : Call Kmod α} {f : α → Call Kmod Result}
    (next : ∀ a, Yields post (f a)) : Yields post (c >>= f) := by
  intro k r cntr k' returns
  obtain ⟨a,middle,_,last⟩ := Call.bind_ret returns
  exact next a middle r cntr k' last

theorem yields_ite {p : Prop} [Decidable p] {c d : Call Kmod Result} (first : Yields post c)
    (second : ¬ p → Yields post d) : Yields post (if p then c else d) := by
  by_cases holds : p
  · rw [if_pos holds]
    exact first
  · rw [if_neg holds]
    exact second holds

theorem yields_none (r : Int) : Yields post (pure (r,none)) := by
  rintro k r' cntr k' ⟨⟩

theorem yields_some {cntr : Cntr} (r : Int) (holds : post cntr) :
    Yields post (pure (r,some cntr)) := by
  rintro k r' cntr' k' ⟨⟩
  exact holds

/-! The labels return no container. -/

section
variable (cntr : Cntr) (r : Int)

theorem outFreeCntr_yields : Yields post (outFreeCntr cntr r) := yields_bind fun _ => yields_none r

theorem outPutMemHpage_yields : Yields post (outPutMemHpage cntr r) :=
  yields_bind fun _ => outFreeCntr_yields cntr r

theorem outPutMem2Hpage_yields : Yields post (outPutMem2Hpage cntr r) :=
  yields_bind fun _ => outPutMemHpage_yields cntr r

theorem outPutInitrdHpage_yields : Yields post (outPutInitrdHpage cntr r) :=
  yields_bind fun _ => outPutMem2Hpage_yields cntr r

theorem outFreeBootPgtbl_yields : Yields post (outFreeBootPgtbl cntr r) :=
  yields_bind fun _ => outPutInitrdHpage_yields cntr r

theorem outFreeBootParams_yields : Yields post (outFreeBootParams cntr r) :=
  yields_bind fun _ => outFreeBootPgtbl_yields cntr r

theorem outFreeCpus_yields : Yields post (outFreeCpus cntr r) :=
  yields_bind fun _ => outFreeBootParams_yields cntr r

theorem outPutFd_yields (fd : Int) : Yields post (outPutFd cntr fd r) :=
  yields_bind fun _ => outFreeCpus_yields cntr r

end

/-! The pieces of the call, from the last to the first. -/

section
variable (env : Env) (cntr : Cntr)

theorem installFd_yields (holds : post cntr) : Yields post (installFd env cntr) := by
  refine yields_ite (outFreeBootParams_yields _ _) fun _ => yields_bind fun _ => ?_
  cases env.file with
  | some error => exact outPutFd_yields _ _ _
  | none => exact yields_some _ holds

theorem fillBootParams_yields (bootPgtbl : cntr.bootPgtbl ≠ none) (cpus : cntr.cpus ≠ none) :
    Yields (Cntr.Made cntr.virtioNet cntr.memHpage cntr.mem2Hpage cntr.initrdHpage)
      (fillBootParams env cntr) := by
  refine yields_bind fun bootParams => yields_ite (outFreeCpus_yields _ _) fun given => ?_
  exact installFd_yields env _ ⟨⟨bootPgtbl,given,cpus,rfl⟩,rfl,rfl,rfl⟩

theorem fillCpus_yields (bootPgtbl : cntr.bootPgtbl ≠ none) :
    Yields (Cntr.Made cntr.virtioNet cntr.memHpage cntr.mem2Hpage cntr.initrdHpage)
      (fillCpus env cntr) := by
  refine yields_bind fun cpus => yields_ite (outFreeBootPgtbl_yields _ _) fun given => ?_
  exact fillBootParams_yields env _ bootPgtbl given

theorem takePcid_yields (bootPgtbl : cntr.bootPgtbl ≠ none) :
    Yields (Cntr.Made cntr.virtioNet cntr.memHpage cntr.mem2Hpage cntr.initrdHpage)
      (takePcid env cntr) :=
  yields_bind fun _ => yields_ite (outFreeBootPgtbl_yields _ _) fun _ =>
    fillCpus_yields env _ bootPgtbl

theorem fillBootPgtbl_yields :
    Yields (Cntr.Made cntr.virtioNet cntr.memHpage cntr.mem2Hpage cntr.initrdHpage)
      (fillBootPgtbl env cntr) :=
  yields_bind fun _ => yields_ite (outPutInitrdHpage_yields _ _) fun given =>
    takePcid_yields env _ given

theorem pin_yields {pin : Pin} {npages : Nat} {unpinned wrong next : Call Kmod Result}
    (failed : Yields post unpinned) (small : Yields post wrong) (accepted : Yields post next) :
    Yields post (if pin.result ≠ 1 then unpinned
      else do
        acquire (.hpage pin.page)
        if pin.compoundNr ≠ npages then wrong else next) :=
  yields_ite failed fun _ => yields_bind fun _ => yields_ite small fun _ => accepted

theorem pinInitrd_yields :
    Yields (Cntr.Made cntr.virtioNet cntr.memHpage cntr.mem2Hpage env.initrd.page)
      (pinInitrd env cntr) := by
  rw [pinInitrd]
  refine pin_yields (outPutMem2Hpage_yields _ _) (outPutInitrdHpage_yields _ _) ?_
  exact fillBootPgtbl_yields env { cntr with initrdHpage := env.initrd.page }

theorem pinMem2_yields :
    Yields (Cntr.Made cntr.virtioNet cntr.memHpage env.mem2.page env.initrd.page)
      (pinMem2 env cntr) := by
  rw [pinMem2]
  refine pin_yields (outPutMemHpage_yields _ _) (outPutMem2Hpage_yields _ _) ?_
  exact pinInitrd_yields env { cntr with mem2Hpage := env.mem2.page }

theorem pinMem_yields :
    Yields (Cntr.Made cntr.virtioNet env.mem.page env.mem2.page env.initrd.page)
      (pinMem env cntr) := by
  rw [pinMem]
  refine pin_yields (outFreeCntr_yields _ _) (outPutMemHpage_yields _ _) ?_
  exact pinMem2_yields env { cntr with memHpage := env.mem.page }

end

/-- A container that a creation returns is whole and has the pages that were pinned. -/
theorem create_made {env : Env} {memory cntr : Cntr} {r : Int} {k k' : Kmod}
    (made : pkmDevIoctlCreateCntr env memory k = .ret (r,some cntr) k') :
    cntr.Made memory.virtioNet env.mem.page env.mem2.page env.initrd.page := by
  have yields : Yields (Cntr.Made memory.virtioNet env.mem.page env.mem2.page env.initrd.page)
      (pkmDevIoctlCreateCntr env memory) := by
    refine yields_ite (yields_none _) fun _ => ?_
    cases env.cntr with
    | none => exact yields_none _
    | some addr => exact yields_bind fun _ => pinMem_yields env _
  exact yields k r cntr k' made

theorem create_whole {env : Env} {memory cntr : Cntr} {r : Int} {k k' : Kmod}
    (made : pkmDevIoctlCreateCntr env memory k = .ret (r,some cntr) k') :
    cntr.Whole memory.virtioNet := (create_made made).toWhole

/-! Its PCID has passed the check. -/

section
variable (env : Env) (cntr : Cntr)

theorem fillCpus_within (within : cntr.pcid ≤ pkmCntrMaxPcid) :
    Yields (fun made => made.pcid ≤ pkmCntrMaxPcid) (fillCpus env cntr) := by
  refine yields_bind fun cpus => yields_ite (outFreeBootPgtbl_yields _ _) fun _ => ?_
  refine yields_bind fun bootParams => yields_ite (outFreeCpus_yields _ _) fun _ => ?_
  exact installFd_yields env _ within

theorem fillBootPgtbl_within :
    Yields (fun made => made.pcid ≤ pkmCntrMaxPcid) (fillBootPgtbl env cntr) := by
  refine yields_bind fun _ => yields_ite (outPutInitrdHpage_yields _ _) fun _ => ?_
  refine yields_bind fun pcid => yields_ite (outFreeBootPgtbl_yields _ _) fun within => ?_
  exact fillCpus_within env _ (BitVec.not_lt.mp within)

end

theorem create_within {env : Env} {memory cntr : Cntr} {r : Int} {k k' : Kmod}
    (made : pkmDevIoctlCreateCntr env memory k = .ret (r,some cntr) k') :
    cntr.pcid ≤ pkmCntrMaxPcid := by
  have yields : Yields (fun made => made.pcid ≤ pkmCntrMaxPcid)
      (pkmDevIoctlCreateCntr env memory) := by
    refine yields_ite (yields_none _) fun _ => ?_
    cases env.cntr with
    | none => exact yields_none _
    | some addr =>
      refine yields_bind fun _ => ?_
      refine pin_yields (outFreeCntr_yields _ _) (outPutMemHpage_yields _ _) ?_
      refine pin_yields (outPutMemHpage_yields _ _) (outPutMem2Hpage_yields _ _) ?_
      refine pin_yields (outPutMem2Hpage_yields _ _) (outPutInitrdHpage_yields _ _) ?_
      exact fillBootPgtbl_within env _
  exact yields k r cntr k' made

end Cki.Create
