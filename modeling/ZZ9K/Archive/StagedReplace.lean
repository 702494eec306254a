import ZZ9K.Archive.Output
import Mathlib.Logic.Function.Basic

namespace ZZ9K.Archive

open ZZ9K.Framework

section

variable {K γ : Type} [DecidableEq K]

/-- The files by their objects, and the calls that were answered so far -/
structure Volume (K γ : Type) where
  files : K → Option γ
  log : List (Answered ToolCall ToolCall.Answer) := []

/-- The files after a renaming, which may fail -/
def fileMoved (files : K → Option γ) (a b : K) : Bool → K → Option γ
  | true => Function.update (Function.update files a none) b (files a)
  | false => files

/-- The files after a removal -/
def fileDropped (files : K → Option γ) (a : K) : Bool → K → Option γ
  | true => Function.update files a none
  | false => files

/-- What a call leaves of the files -/
def filesAfter (resolve : CString → K) (files : K → Option γ) :
    Answered ToolCall ToolCall.Answer → K → Option γ
  | ⟨.rename a b,x⟩ => fileMoved files (resolve a) (resolve b) x
  | ⟨.remove path,x⟩ => fileDropped files (resolve path) x
  | _ => files

/-- A file system whose calls may fail at any time; `resolve` says which object a path means. Only a
`lying` one says of a file that is there that it is not. -/
abbrev volumeWorld (resolve : CString → K) (γ : Type) (lying : Prop) :
    World ToolCall ToolCall.Answer where
  State := Volume K γ
  allowed v
    | ⟨.pathExists path,x⟩ => x = false → lying ∨ v.files (resolve path) = none
    | ⟨.rename a _,x⟩ => x = true → v.files (resolve a) ≠ none
    | _ => True
  next v e := {files := filesAfter resolve v.files e,log := v.log++[e]}

/-- What a caller may rely on when the staged file was to replace the destination, but for the
staged file itself -/
structure StagedReplaced (resolve : CString → K) (tmpPath path : CString)
    (before : K → Option γ) (ok : Bool) (after : Volume K γ) : Prop where
  installed : ok = true → after.files (resolve path) = before (resolve tmpPath)
  kept : ok = false → after.files (resolve path) = before (resolve path) ∨
    ∃ slot,⟨.rename (siblingPath path backupTag slot) path,false⟩ ∈ after.log ∧
      after.files (resolve (siblingPath path backupTag slot)) = before (resolve path)
  others : ∀ k,k ≠ resolve path → k ≠ resolve tmpPath → after.files k = before k ∨
    before k = none ∧ ∃ slot,k = resolve (siblingPath path backupTag slot)

/-- The staged file is gone unless it could not be removed. -/
def StagedGone (resolve : CString → K) (tmpPath : CString) (ok : Bool) (after : Volume K γ) : Prop :=
  ok = false → after.files (resolve tmpPath) = none ∨ ⟨.remove tmpPath,false⟩ ∈ after.log

variable {resolve : CString → K} {tmpPath path : CString}

theorem probeSiblingLoop_wp {t : SiblingTag} {seed left : Nat} {dst : CString} (v : Volume K γ) :
    (volumeWorld resolve γ False).wp (probeSiblingLoop path t seed left dst)
      (fun r w => w.files = v.files ∧ (r.1 = true → ∃ slot,r.2 = siblingPath path t slot ∧
        v.files (resolve r.2) = none)) v := by
  induction left generalizing dst v with
  | zero => exact ⟨rfl,nofun⟩
  | succ left ih =>
    intro taken htaken
    have hnext := @ih (siblingPath path t ((seed+(31-left))%32))
      {files := v.files,log := v.log++[⟨.pathExists _,taken⟩]}
    cases taken with
    | true => exact hnext
    | false => exact ⟨rfl,fun _ => ⟨_,rfl,(htaken rfl).resolve_left id⟩⟩

/-- A name that is found free is a sibling that is not there. -/
theorem probeSibling_wp {t : SiblingTag} (v : Volume K γ) :
    (volumeWorld resolve γ False).wp (probeSibling path t)
      (fun r w => w.files = v.files ∧ (r.1 = true → ∃ slot,r.2 = siblingPath path t slot ∧
        v.files (resolve r.2) = none)) v := by
  intro (seed : Nat) _
  have hloop := @probeSiblingLoop_wp K γ _ resolve path t (seed%32) 32 []
    {files := v.files,log := v.log++[⟨.probeSeed,seed⟩]}
  exact hloop

variable {before : K → Option γ}

/-- The staged file is given up, with all other files as they were. -/
theorem giveUp_wp (v : Volume K γ) (hne : resolve tmpPath ≠ resolve path)
    (hv : v.files = before) :
    (volumeWorld resolve γ False).wp
      (Ask.ask (.remove tmpPath) fun _ => .ret false : Tool Bool)
      (fun ok w => StagedReplaced resolve tmpPath path before ok w ∧
        StagedGone resolve tmpPath ok w) v := by
  rintro (_ | _) -
  · exact ⟨⟨nofun,fun _ => .inl (congrFun hv _),fun k _ _ => .inl (congrFun hv k)⟩,
      fun _ => .inr (List.mem_append_right _ (List.mem_singleton_self _))⟩
  · have hother : ∀ k,k ≠ resolve tmpPath →
        Function.update v.files (resolve tmpPath) none k = before k := by
      intro k hk
      rw [Function.update_of_ne hk,hv]
    exact ⟨⟨nofun,fun _ => .inl (hother _ hne.symm),fun k _ hk => .inl (hother k hk)⟩,
      fun _ => .inl (Function.update_self _ _ _)⟩

/-- The end of the replacement, with no old file -/
theorem installStaged_wp_none (v : Volume K γ) (hne : resolve tmpPath ≠ resolve path)
    (hv : v.files = before) :
    (volumeWorld resolve γ False).wp (installStaged tmpPath path none)
      (fun ok w => StagedReplaced resolve tmpPath path before ok w ∧
        StagedGone resolve tmpPath ok w) v := by
  rintro (_ | _) -
  · have hgive := @giveUp_wp K γ _ resolve tmpPath path before
      {files := v.files,log := v.log++[⟨.rename tmpPath path,false⟩]} hne hv
    exact hgive
  · refine ⟨⟨fun _ => ?_,nofun,fun k hk hk' => .inl ?_⟩,nofun⟩
    · exact (Function.update_self _ _ _).trans (congrFun hv _)
    · exact (Function.update_of_ne hk _ _).trans ((Function.update_of_ne hk' _ _).trans
        (congrFun hv k))

/-- The old file comes back, or it stays at the sibling. -/
theorem restore_wp (v : Volume K γ) {slot : Nat} {b : K}
    (hb : resolve (siblingPath path backupTag slot) = b) (hfree : before b = none)
    (hne : resolve tmpPath ≠ resolve path) (htmp : b ≠ resolve tmpPath)
    (hold : v.files b = before (resolve path))
    (hother : ∀ k,k ≠ resolve path → k ≠ resolve tmpPath → k ≠ b → v.files k = before k)
    (hgone : StagedGone resolve tmpPath false v) :
    (volumeWorld resolve γ False).wp
      (Ask.ask (.rename (siblingPath path backupTag slot) path) fun _ => .ret false : Tool Bool)
      (fun ok w => StagedReplaced resolve tmpPath path before ok w ∧
        StagedGone resolve tmpPath ok w) v := by
  have hsibling : ∀ k,k = b → before k = none ∧ ∃ slot,
      k = resolve (siblingPath path backupTag slot) := by
    rintro k rfl
    exact ⟨hfree,slot,hb.symm⟩
  have hgone' : ∀ (files : K → Option γ) e,files (resolve tmpPath) = v.files (resolve tmpPath) →
      StagedGone resolve tmpPath false {files,log := v.log++[e]} := by
    intro files e hfiles _
    obtain h | h := hgone rfl
    · exact .inl (hfiles.trans h)
    · exact .inr (List.mem_append_left _ h)
  rintro (_ | _) -
  · refine ⟨⟨nofun,fun _ => .inr ⟨slot,?_,?_⟩,fun k hk hk' => ?_⟩,hgone' _ _ rfl⟩
    · exact List.mem_append_right _ (List.mem_singleton_self _)
    · rw [hb]
      exact hold
    · by_cases hkb : k = b
      · exact .inr (hsibling k hkb)
      · exact .inl (hother k hk hk' hkb)
  · have hafter : ∀ k,k ≠ resolve path →
        fileMoved v.files (resolve (siblingPath path backupTag slot)) (resolve path) true k =
          Function.update v.files b none k := by
      intro k hk
      rw [fileMoved,hb,Function.update_of_ne hk]
    refine ⟨⟨nofun,fun _ => .inl ?_,fun k hk hk' => ?_⟩,hgone' _ _ ?_⟩
    · refine (Function.update_self _ _ _).trans ?_
      rw [hb]
      exact hold
    · by_cases hkb : k = b
      · exact .inr (hsibling k hkb)
      · exact .inl ((hafter k hk).trans ((Function.update_of_ne hkb _ _).trans
          (hother k hk hk' hkb)))
    · exact (hafter _ hne).trans (Function.update_of_ne htmp.symm _ _)

/-- The end of the replacement, with the old file at a sibling that was not there -/
theorem installStaged_wp_some (v : Volume K γ) {slot : Nat} {b : K}
    (hb : resolve (siblingPath path backupTag slot) = b) (hfree : before b = none)
    (hne : resolve tmpPath ≠ resolve path) (hbp : b ≠ resolve path) (htmp : b ≠ resolve tmpPath)
    (hv : v.files = fileMoved before (resolve path) b true) :
    (volumeWorld resolve γ False).wp
      (installStaged tmpPath path (some (siblingPath path backupTag slot)))
      (fun ok w => StagedReplaced resolve tmpPath path before ok w ∧
        StagedGone resolve tmpPath ok w) v := by
  have hold : v.files b = before (resolve path) := by
    rw [hv]
    exact Function.update_self _ _ _
  have hstaged : v.files (resolve tmpPath) = before (resolve tmpPath) := by
    rw [hv,fileMoved,Function.update_of_ne htmp.symm,Function.update_of_ne hne]
  have hother : ∀ k,k ≠ resolve path → k ≠ b → v.files k = before k := by
    intro k hk hkb
    rw [hv,fileMoved,Function.update_of_ne hkb,Function.update_of_ne hk]
  rintro (_ | _) -
  · -- the staged file did not get there
    rintro (_ | _) -
    · have hrestore := @restore_wp K γ _ resolve tmpPath path before
        {files := v.files,log := (v.log++[⟨.rename tmpPath path,false⟩])++[⟨.remove tmpPath,false⟩]}
        slot b hb hfree hne htmp hold (fun k hk _ hkb => hother k hk hkb)
        (fun _ => .inr (List.mem_append_right _ (List.mem_singleton_self _)))
      exact hrestore
    · have hrestore := @restore_wp K γ _ resolve tmpPath path before
        {files := Function.update v.files (resolve tmpPath) none,
          log := (v.log++[⟨.rename tmpPath path,false⟩])++[⟨.remove tmpPath,true⟩]}
        slot b hb hfree hne htmp ((Function.update_of_ne htmp _ _).trans hold)
        (fun k hk hk' hkb => (Function.update_of_ne hk' _ _).trans (hother k hk hkb))
        (fun _ => .inl (Function.update_self _ _ _))
      exact hrestore
  · have hpath : fileMoved v.files (resolve tmpPath) (resolve path) true (resolve path) =
        before (resolve tmpPath) := (Function.update_self _ _ _).trans hstaged
    have hrest : ∀ k,k ≠ resolve path → k ≠ resolve tmpPath → k ≠ b →
        fileMoved v.files (resolve tmpPath) (resolve path) true k = before k := by
      intro k hk hk' hkb
      rw [fileMoved,Function.update_of_ne hk,Function.update_of_ne hk']
      exact hother k hk hkb
    -- the old file may stay at the sibling
    intro (y : Bool) _
    have hkeep : ∀ k,k ≠ b → fileDropped (fileMoved v.files (resolve tmpPath) (resolve path) true)
        (resolve (siblingPath path backupTag slot)) y k =
          fileMoved v.files (resolve tmpPath) (resolve path) true k := by
      intro k hk
      cases y with
      | false => rfl
      | true => rw [hb,fileDropped,Function.update_of_ne hk]
    refine ⟨⟨fun _ => (hkeep _ hbp.symm).trans hpath,nofun,fun k hk hk' => ?_⟩,nofun⟩
    by_cases hkb : k = b
    · rw [hkb]
      exact .inr ⟨hfree,slot,hb.symm⟩
    · exact .inl ((hkeep k hkb).trans (hrest k hk hk' hkb))

/-- The rest of the replacement once the staged file could not be moved: the old file is first moved
to a sibling that is free. -/
theorem backUp_wp (hne : resolve tmpPath ≠ resolve path)
    (hstaged : before (resolve tmpPath) ≠ none) (v : Volume K γ) (hv : v.files = before) :
    (volumeWorld resolve γ False).wp (do
      let (found,backup) ← probeSibling path backupTag
      if found = false then do
        let _ ← Tool.remove tmpPath
        pure false
      else do
        let moved ← Tool.rename path backup
        if moved then installStaged tmpPath path (some backup)
        else do
          let _ ← Tool.remove tmpPath
          pure false) (fun ok after => StagedReplaced resolve tmpPath path before ok after ∧
            StagedGone resolve tmpPath ok after) v := by
  have hgive : ∀ v : Volume K γ,v.files = before → (volumeWorld resolve γ False).wp
      (Ask.ask (.remove tmpPath) fun _ => .ret false : Tool Bool) _ v := fun v hv =>
    giveUp_wp v hne hv
  rw [World.wp_bind]
  refine (volumeWorld resolve γ False).wp_mono (probeSibling_wp v) ?_
  rintro ⟨found,backup⟩ w ⟨hw,hfound⟩
  rw [hv] at hw hfound
  cases found with
  | false => exact hgive w hw
  | true =>
    obtain ⟨slot,rfl,hfree⟩ := hfound rfl
    dsimp only at hfree
    rintro (_ | _) hmoved
    · exact hgive {files := w.files,log := _} hw
    · have hthere : w.files (resolve path) ≠ none := hmoved rfl
      rw [hw] at hthere
      have hbp : resolve (siblingPath path backupTag slot) ≠ resolve path := by
        intro heq
        rw [heq] at hfree
        exact hthere hfree
      have htmp : resolve (siblingPath path backupTag slot) ≠ resolve tmpPath := by
        intro heq
        rw [heq] at hfree
        exact hstaged hfree
      have hinstall := @installStaged_wp_some K γ _ resolve tmpPath path before
        ⟨fileMoved w.files (resolve path) (resolve (siblingPath path backupTag slot)) true,
          w.log++[⟨.rename path (siblingPath path backupTag slot),true⟩]⟩
        slot _ rfl hfree hne hbp htmp (by rw [hw])
      exact hinstall

/-- However the calls fail: a replacement that succeeds leaves the staged content at the destination;
one that fails leaves the old content there, or at the sibling where it could not be restored, and
removes the staged file if that can be removed; and nothing else is touched but a sibling name that
was free. -/
theorem replaceWithStaged_keeps {K γ : Type} [DecidableEq K] (resolve : CString → K)
    {tmpPath path : CString} (before : K → Option γ) (hne : resolve tmpPath ≠ resolve path)
    (hstaged : before (resolve tmpPath) ≠ none) {ok : Bool} {after : Volume K γ}
    (h : (volumeWorld resolve γ False).Reaches (replaceWithStaged tmpPath path) {files := before} ok
      after) :
    StagedReplaced resolve tmpPath path before ok after ∧
      StagedGone resolve tmpPath ok after := by
  refine @World.wp_reaches _ _ _ _ _ (fun ok after => StagedReplaced resolve tmpPath path before ok
    after ∧ StagedGone resolve tmpPath ok after) _ _ _ ?_ h
  rintro (_ | _) -
  · exact installStaged_wp_none {files := before,log := _} hne rfl
  · rintro (_ | _) -
    · exact giveUp_wp {files := before,log := _} hne rfl
    · exact backUp_wp hne hstaged ⟨before,_⟩ rfl

end

/-- A staged file at "t" and an old one at "p" -/
def stagedFiles : CString → Option Nat := fun path =>
  if path = [0x74] then some 1 else if path = [0x70] then some 0 else none

/-- The first sibling name for the old file -/
def firstBackup : CString := siblingPath [0x70] backupTag 0

/-- The staged file takes the place of the old one, which is removed. -/
def replacedLog : List (Answered ToolCall ToolCall.Answer) :=
  [⟨.pathExists [0x70],true⟩,⟨.malloc 17,true⟩,⟨.probeSeed,(0 : Nat)⟩,⟨.pathExists firstBackup,false⟩,
    ⟨.rename [0x70] firstBackup,true⟩,⟨.rename [0x74] [0x70],true⟩,⟨.remove firstBackup,true⟩]

theorem replacedLog_reaches {lying : Prop} {files : CString → Option Nat}
    (h0 : files [0x70] = some 0) (h1 : files [0x74] = some 1)
    (hfree : lying ∨ files firstBackup = none) :
    ∃ after,(volumeWorld id Nat lying).Reaches (replaceWithStaged [0x74] [0x70])
      {files := files} true after ∧ after.files firstBackup = none := by
  have hold : files [0x70] ≠ none := by rw [h0]; nofun
  have hstaged : fileMoved files [0x70] firstBackup true [0x74] ≠ none := by
    rw [fileMoved,Function.update_of_ne (by decide),Function.update_of_ne (by decide),h1]
    nofun
  exact ⟨_,⟨replacedLog,Ask.runs_of_replay rfl,⟨nofun,trivial,trivial,fun _ => hfree,fun _ => hold,
    fun _ => hstaged,trivial,trivial⟩,rfl⟩,rfl⟩

theorem replaceWithStaged_keeps_replaced : ∃ after : Volume CString Nat,
    StagedReplaced id [0x74] [0x70] stagedFiles true after ∧ StagedGone id [0x74] true after := by
  obtain ⟨after,hreaches,-⟩ := @replacedLog_reaches False stagedFiles rfl rfl (.inr (by decide))
  exact ⟨after,replaceWithStaged_keeps id stagedFiles (by decide) (by decide) hreaches⟩

/-- A staged file that cannot be removed stays; and where the look at a sibling name fails, the file
that has it is lost. -/
theorem replaceWithStaged_not_keeps :
    (¬∀ (before : CString → Option Nat) (ok : Bool) (after : Volume CString Nat),
      before [0x74] ≠ none →
      (volumeWorld id Nat False).Reaches (replaceWithStaged [0x74] [0x70]) {files := before} ok after →
      ok = false → after.files [0x74] = none) ∧
    ¬∀ (before : CString → Option Nat) (ok : Bool) (after : Volume CString Nat),
      before [0x74] ≠ none →
      (volumeWorld id Nat True).Reaches (replaceWithStaged [0x74] [0x70]) {files := before} ok after →
      StagedReplaced id [0x74] [0x70] before ok after := by
  constructor
  · intro hall
    have hgone := hall stagedFiles false _ (by decide)
      ⟨[⟨.pathExists [0x70],true⟩,⟨.malloc 17,false⟩,⟨.remove [0x74],false⟩],
        Ask.runs_of_replay rfl,⟨nofun,trivial,trivial,trivial⟩,rfl⟩ rfl
    exact absurd hgone (by decide)
  · intro hall
    -- a file at the sibling name, too
    obtain ⟨after,hreaches,hlost⟩ := @replacedLog_reaches True
      (Function.update stagedFiles firstBackup (some 2)) rfl rfl (.inl trivial)
    have hother := (hall _ true after (by decide) hreaches).others firstBackup (by decide) (by decide)
    rw [hlost] at hother
    exact absurd hother (by simp)

end ZZ9K.Archive
