import Cki.CreateEnds
import Cki.CreateWhole

/-! What `pkm_dev_ioctl_create_cntr` reports. One variable takes the bytes that
`copy_from_user` has left, the pages that `get_user_pages_fast` has pinned and the error codes
of the rest, and is returned as it is. -/
namespace Cki.Create

def IsErrno (r : Int) : Prop := -4095 ≤ r ∧ r < 0

instance : DecidablePred IsErrno := fun r => inferInstanceAs (Decidable (-4095 ≤ r ∧ r < 0))

/-- `get_user_pages_fast` answers a number of pages, of which one was asked for, or an error. -/
def Pin.Answers (pin : Pin) : Prop := pin.result = 1 ∨ pin.result = 0 ∨ IsErrno pin.result

/-- What the functions of the kernel answer by their documentation. -/
structure Env.Answers (env : Env) : Prop where
  mem : env.mem.Answers
  mem2 : env.mem2.Answers
  initrd : env.initrd.Answers
  fd : 0 ≤ env.fd ∨ IsErrno env.fd
  file : ∀ error, env.file = some error → IsErrno error

/-- A descriptor is returned exactly with a container installed on it, and otherwise an error. -/
def Told (fd : Int) (outcome : Outcome Kmod Result) : Prop :=
  ∃ r made k, outcome = .ret (r,made) k ∧ (0 ≤ r ↔ made ≠ none ∧ r = fd) ∧
    (made = none → IsErrno r)

/-- The call tells of a container that nothing is missing from. -/
def Reports (env : Env) (memory : Cntr) (outcome : Outcome Kmod Result) : Prop :=
  ∃ r made k, outcome = .ret (r,made) k ∧
    (0 ≤ r ↔ ∃ cntr, made = some cntr ∧ r = env.fd ∧
      cntr.Made memory.virtioNet env.mem.page env.mem2.page env.initrd.page) ∧
    (made = none → IsErrno r)

/-- The arguments are copied in full, no page that is asked for goes unpinned without an error,
and the pages of the boot parameters are granted when it comes to them. -/
structure Env.Reported (env : Env) (nextCntrPcid : BitVec 32) : Prop where
  copied : env.notCopied = 0
  mem : env.cntr ≠ none → env.mem.result ≠ 0
  mem2 : env.cntr ≠ none → env.mem.Accepted pkmCntrMemNpages → env.mem2.result ≠ 0
  initrd : env.cntr ≠ none → env.mem.Accepted pkmCntrMemNpages →
    env.mem2.Accepted pkmCntrMemNpages → env.initrd.result ≠ 0
  bootParams : env.ReachesBootParams nextCntrPcid → env.bootParams ≠ none ∧ env.cmdline ≠ none

/-! The labels. -/

section
variable {fd r : Int} {outcome : Outcome Kmod Result}

theorem told_failed (failed : ∃ k, outcome = .ret (r,none) k) : Told fd outcome ↔ IsErrno r := by
  obtain ⟨k,rfl⟩ := failed
  constructor
  · rintro ⟨_,_,_,⟨⟩,_,error⟩
    exact error rfl
  · intro error
    refine ⟨r,none,k,rfl,iff_of_false ?_ (fun both => both.1 rfl),fun _ => error⟩
    exact Int.not_le.mpr error.2

theorem not_told_fault {k : Kmod} : ¬ Told fd (.fault k) := by
  rintro ⟨_,_,_,⟨⟩,_⟩

variable (cntr : Cntr) (k : Kmod)

theorem outFreeBootPgtbl_failed (built : cntr.bootPgtbl ≠ none) :
    ∃ k', outFreeBootPgtbl cntr r k = .ret (r,none) k' := by
  obtain ⟨bootPgtbl,some⟩ := Option.ne_none_iff_exists'.mp built
  rw [outFreeBootPgtbl,some]
  exact ⟨_,rfl⟩

theorem outFreeBootParams_failed (built : cntr.bootPgtbl ≠ none) (given : cntr.bootParams ≠ none) :
    ∃ k', outFreeBootParams cntr r k = .ret (r,none) k' := by
  obtain ⟨bootParams,some⟩ := Option.ne_none_iff_exists'.mp given
  rw [outFreeBootParams,some]
  exact outFreeBootPgtbl_failed cntr _ built

theorem outFreeCpus_failed (built : cntr.bootPgtbl ≠ none) (given : cntr.bootParams ≠ none) :
    ∃ k', outFreeCpus cntr r k = .ret (r,none) k' := by
  rw [outFreeCpus]
  cases cntr.cpus with
  | none => exact outFreeBootParams_failed cntr k built given
  | some cpus => exact outFreeBootParams_failed cntr _ built given

/-- Without boot parameters the label follows a null pointer. -/
theorem outFreeCpus_fault (missing : cntr.bootParams = none) :
    ∃ k', outFreeCpus cntr r k = .fault k' := by
  rw [outFreeCpus,outFreeBootParams,missing]
  cases cntr.cpus with
  | none => exact ⟨_,rfl⟩
  | some cpus => exact ⟨_,rfl⟩

end

/-! The pieces of the call, from the last to the first. -/

section
variable {env : Env} (answers : env.Answers) (cntr : Cntr) (k : Kmod)
include answers

theorem installFd_told (built : cntr.bootPgtbl ≠ none) (given : cntr.bootParams ≠ none) :
    Told env.fd (installFd env cntr k) := by
  rw [installFd]
  by_cases negative : env.fd < 0
  · rw [if_pos negative,told_failed (outFreeBootParams_failed cntr k built given)]
    rcases answers.fd with positive | error
    · omega
    · exact error
  · rw [if_neg negative]
    cases file : env.file with
    | none =>
      refine ⟨_,_,_,rfl,?_,by simp⟩
      exact iff_of_true (Int.not_lt.mp negative) ⟨by simp,rfl⟩
    | some error =>
      refine (told_failed (r := error) ?_).mpr (answers.file error file)
      exact outFreeCpus_failed cntr _ built given

theorem fillBootParams_told (built : cntr.bootPgtbl ≠ none) :
    Told env.fd (fillBootParams env cntr k) ↔ env.bootParams ≠ none ∧ env.cmdline ≠ none := by
  obtain ⟨bootParams,k',ends,_,missing⟩ := createBootParams_next env cntr k
  rw [fillBootParams,Call.ret_bind ends]
  by_cases none : bootParams = .none
  · obtain ⟨k'',faults⟩ := outFreeCpus_fault (r := -enomem) { cntr with bootParams := bootParams } k' none
    rw [if_pos none,faults]
    exact iff_of_false not_told_fault (missing.mp none)
  · have granted := Classical.not_not.mp fun lacks => none (missing.mpr lacks)
    rw [if_neg none]
    exact iff_of_true (installFd_told answers _ k' built none) granted

theorem fillCpus_told (built : cntr.bootPgtbl ≠ none) : Told env.fd (fillCpus env cntr k) ↔
    (env.cpus ≠ none → env.bootParams ≠ none ∧ env.cmdline ≠ none) := by
  cases cpus : env.cpus with
  | none =>
    rw [fillCpus,Call.ret_bind (createCpus_none cpus k),if_pos rfl]
    refine iff_of_true ((told_failed (outFreeBootPgtbl_failed _ k built)).mpr (by decide)) ?_
    exact absurd rfl
  | some addr =>
    rw [fillCpus,Call.ret_bind (createCpus_some cpus k),if_neg (Option.some_ne_none addr)]
    refine (fillBootParams_told answers { cntr with cpus := addr } _ built).trans ?_
    exact ⟨fun granted _ => granted,fun granted => granted (Option.some_ne_none addr)⟩

theorem takePcid_told (built : cntr.bootPgtbl ≠ none) : Told env.fd (takePcid env cntr k) ↔
    (k.nextCntrPcid.setWidth 64 ≤ pkmCntrMaxPcid → env.cpus ≠ none →
      env.bootParams ≠ none ∧ env.cmdline ≠ none) := by
  rw [takePcid,Call.ret_bind (nextPcid_apply k)]
  by_cases above : k.nextCntrPcid.setWidth 64 > pkmCntrMaxPcid
  · rw [if_pos above]
    refine iff_of_true ((told_failed (outFreeBootPgtbl_failed _ _ built)).mpr (by decide)) ?_
    exact fun within => absurd above (BitVec.not_lt.mpr within)
  · rw [if_neg above]
    refine (fillCpus_told answers { cntr with pcid := k.nextCntrPcid.setWidth 64 } _ built).trans ?_
    exact ⟨fun granted _ => granted,fun granted => granted (BitVec.not_lt.mp above)⟩

theorem fillBootPgtbl_told : Told env.fd (fillBootPgtbl env cntr k) ↔
    (env.bootPgtbl ≠ none → env.bootPud ≠ none → k.nextCntrPcid.setWidth 64 ≤ pkmCntrMaxPcid →
      env.cpus ≠ none → env.bootParams ≠ none ∧ env.cmdline ≠ none) := by
  obtain ⟨bootPgtbl,k',ends,next,missing⟩ := createBootPgtbl_next env k
  rw [fillBootPgtbl,Call.ret_bind ends,← next]
  by_cases none : bootPgtbl = .none
  · rw [if_pos none]
    refine iff_of_true ((told_failed ⟨_,rfl⟩).mpr (by decide)) fun first second => ?_
    exact absurd ⟨first,second⟩ (missing.mp none)
  · obtain ⟨first,second⟩ := Classical.not_not.mp fun lacks => none (missing.mpr lacks)
    rw [if_neg none,takePcid_told answers _ k' none]
    exact ⟨fun granted _ _ => granted,fun granted => granted first second⟩

end

/-- An answer other than 1 is passed on as the result. -/
theorem pin_told {fd : Int} {pin : Pin} {npages : Nat} {k : Kmod} {holds : Prop}
    {unpinned wrong next : Call Kmod Result} (answers : pin.Answers)
    (failed : ∃ k', unpinned k = .ret (pin.result,none) k')
    (small : ∀ k', ∃ k'', wrong k' = .ret (-einval,none) k'')
    (accepted : ∀ k', k'.nextCntrPcid = k.nextCntrPcid → (Told fd (next k') ↔ holds)) :
    Told fd ((if pin.result ≠ 1 then unpinned
      else do
        acquire (.hpage pin.page)
        if pin.compoundNr ≠ npages then wrong else next) k) ↔
      pin.result ≠ 0 ∧ (pin.Accepted npages → holds) := by
  rcases pin_cases pin npages unpinned wrong next k with
    ⟨result,outcome⟩ | ⟨one,number,outcome⟩ | ⟨accepts,outcome⟩
  · rw [outcome,told_failed failed]
    constructor
    · intro error
      exact ⟨fun zero => absurd error.2 (by omega),fun accepted => absurd accepted.1 result⟩
    · rintro ⟨nonzero,_⟩
      rcases answers with one | zero | error
      · exact absurd one result
      · exact absurd zero nonzero
      · exact error
  · have nonzero : pin.result ≠ 0 := by omega
    rw [outcome,told_failed (small _),and_iff_right nonzero]
    exact iff_of_true (by decide) fun accepts => absurd accepts.2 number
  · have one := accepts.1
    have nonzero : pin.result ≠ 0 := by omega
    rw [outcome,and_iff_right nonzero]
    refine (accepted { k with log := k.log ++ [.acquire (.hpage pin.page)] } rfl).trans ?_
    exact (imp_iff_right accepts).symm

theorem pinMem_told {env : Env} (answers : env.Answers) (cntr : Cntr) (k : Kmod) :
    Told env.fd (pinMem env cntr k) ↔
      env.mem.result ≠ 0 ∧ (env.mem.Accepted pkmCntrMemNpages →
      env.mem2.result ≠ 0 ∧ (env.mem2.Accepted pkmCntrMemNpages →
      env.initrd.result ≠ 0 ∧ (env.initrd.Accepted pkmCntrInitrdNpages →
      env.bootPgtbl ≠ none → env.bootPud ≠ none → k.nextCntrPcid.setWidth 64 ≤ pkmCntrMaxPcid →
      env.cpus ≠ none → env.bootParams ≠ none ∧ env.cmdline ≠ none))) := by
  refine pin_told answers.mem ⟨_,rfl⟩ (fun _ => ⟨_,rfl⟩) fun first same => ?_
  rw [← same]
  refine pin_told answers.mem2 ⟨_,rfl⟩ (fun _ => ⟨_,rfl⟩) fun second same => ?_
  rw [← same]
  refine pin_told answers.initrd ⟨_,rfl⟩ (fun _ => ⟨_,rfl⟩) fun third same => ?_
  rw [← same]
  exact fillBootPgtbl_told answers _ third

theorem create_told {env : Env} (answers : env.Answers) (memory : Cntr) (k : Kmod) :
    Told env.fd (pkmDevIoctlCreateCntr env memory k) ↔ env.Reported k.nextCntrPcid := by
  rw [pkmDevIoctlCreateCntr]
  by_cases uncopied : env.notCopied ≠ 0
  · rw [if_pos uncopied]
    refine iff_of_false ?_ fun reported => uncopied reported.copied
    intro told
    have error := (told_failed ⟨_,rfl⟩).mp told
    exact absurd error.2 (by omega)
  · have copied := Classical.not_not.mp uncopied
    rw [if_neg uncopied]
    cases addr : env.cntr with
    | none =>
      refine iff_of_true ((told_failed ⟨_,rfl⟩).mpr (by decide)) ?_
      constructor
      · exact copied
      · exact fun made => absurd addr made
      · exact fun made => absurd addr made
      · exact fun made => absurd addr made
      · exact fun reaches => absurd addr reaches.cntr
    | some value =>
      have made : env.cntr ≠ none := by simp [addr]
      refine (pinMem_told answers { memory with addr := value, nCpus := env.numOnlineCpus } _).trans ?_
      constructor
      · rintro ⟨mem,rest⟩
        refine ⟨copied,fun _ => mem,fun _ first => (rest first).1,fun _ first second =>
          ((rest first).2 second).1,fun reaches => ?_⟩
        exact ((rest reaches.mem).2 reaches.mem2).2 reaches.initrd reaches.bootPgtbl reaches.bootPud
          reaches.pcid reaches.cpus
      · intro reported
        refine ⟨reported.mem made,fun first => ⟨reported.mem2 made first,fun second =>
          ⟨reported.initrd made first second,fun third bootPgtbl bootPud pcid cpus => ?_⟩⟩⟩
        exact reported.bootParams ⟨⟨copied,made,first,second,third,bootPgtbl,bootPud⟩,pcid,cpus⟩

/-- The container on the descriptor is whole wherever there is one. -/
theorem reports_iff_told {env : Env} (memory : Cntr) (k : Kmod) :
    Reports env memory (pkmDevIoctlCreateCntr env memory k) ↔
      Told env.fd (pkmDevIoctlCreateCntr env memory k) := by
  have whole : ∀ {r made k'}, pkmDevIoctlCreateCntr env memory k = .ret (r,made) k' →
      ((∃ cntr, made = some cntr ∧ r = env.fd ∧
        cntr.Made memory.virtioNet env.mem.page env.mem2.page env.initrd.page) ↔
        made ≠ none ∧ r = env.fd) := by
    intro r made k' ends
    constructor
    · rintro ⟨cntr,rfl,fd,_⟩
      exact ⟨nofun,fd⟩
    · rintro ⟨some,fd⟩
      obtain ⟨cntr,rfl⟩ := Option.ne_none_iff_exists'.mp some
      exact ⟨cntr,rfl,fd,create_made ends⟩
  constructor
  · rintro ⟨r,made,k',ends,told,error⟩
    exact ⟨r,made,k',ends,told.trans (whole ends),error⟩
  · rintro ⟨r,made,k',ends,told,error⟩
    exact ⟨r,made,k',ends,told.trans (whole ends).symm,error⟩

/-- A result that is not negative names a whole container exactly where every failure is
turned into an error before it is returned. -/
theorem create_reports_iff {env : Env} (answers : env.Answers) (memory : Cntr) (k : Kmod) :
    Reports env memory (pkmDevIoctlCreateCntr env memory k) ↔ env.Reported k.nextCntrPcid :=
  (reports_iff_told memory k).trans (create_told answers memory k)

theorem grants_answers : grants.Answers := ⟨.inl rfl,.inl rfl,.inl rfl,.inl (by decide),nofun⟩

theorem grants_reports : Reports grants blankCntr
    (pkmDevIoctlCreateCntr grants blankCntr ⟨[],pkmCntrMinPcid⟩) := by
  refine (create_reports_iff grants_answers _ _).mpr ?_
  constructor
  · rfl
  · exact fun _ => by decide
  · exact fun _ _ => by decide
  · exact fun _ _ _ => by decide
  · exact fun _ => ⟨by decide,by decide⟩

/-- Arguments that cannot be read: the size of the structure comes back as a descriptor. -/
theorem uncopied_bytes_returned : ¬ ∀ (env : Env) (memory : Cntr) (k : Kmod), env.Answers →
    Reports env memory (pkmDevIoctlCreateCntr env memory k) := by
  intro claim
  obtain ⟨r,made,k,ends,told,_⟩ := claim { grants with notCopied := 96 } blankCntr
    ⟨[],pkmCntrMinPcid⟩ ⟨.inl rfl,.inl rfl,.inl rfl,.inl (by decide),nofun⟩
  cases ends
  obtain ⟨_,⟨⟩,_⟩ := told.mp (by decide)

end Cki.Create
