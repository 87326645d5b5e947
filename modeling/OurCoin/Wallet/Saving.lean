import OurCoin.Model.WalletSaving
import OurCoin.Wallet.Loading

/-!
# Wallets that are saved at the same time

Any number of callers save to one place, every call to the operating system may fail, and a caller
may stop for good at any time.

* `Saves.whole_document`: the place holds what was there before or all that one caller wrote.
* `Saves.others_kept`: other files stay as they are.
* `Saves.exclusive`: of those who do not overwrite, at most one succeeds, and none if something was
  there. The wallet of the one that succeeds can be loaded for ever after.

The invariant behind both is `Saves.Sound`: every temporary file belongs to one save.
-/

set_option autoImplicit false

namespace OurCoin

open Raising

/-! ## The directory -/

namespace Directory

variable {directory : Directory} {name other : Text} {file : Nat}

@[simp] theorem names_create_self : (directory.create name).names name = some directory.next :=
  Function.update_self ..

theorem names_create_of_ne (different : other ≠ name) :
    (directory.create name).names other = directory.names other :=
  Function.update_of_ne different _ _

@[simp] theorem contents_create_self : (directory.create name).contents directory.next = [] :=
  Function.update_self ..

theorem contents_create_of_ne (different : file ≠ directory.next) :
    (directory.create name).contents file = directory.contents file :=
  Function.update_of_ne different _ _

@[simp] theorem next_create : (directory.create name).next = directory.next + 1 := rfl

@[simp] theorem names_append (bytes : Bytes) :
    (directory.append file bytes).names = directory.names := rfl

@[simp] theorem contents_append_self (bytes : Bytes) :
    (directory.append file bytes).contents file = directory.contents file ++ bytes :=
  Function.update_self ..

theorem contents_append_of_ne {other : Nat} (different : other ≠ file) (bytes : Bytes) :
    (directory.append file bytes).contents other = directory.contents other :=
  Function.update_of_ne different _ _

@[simp] theorem next_append (bytes : Bytes) : (directory.append file bytes).next = directory.next :=
  rfl

@[simp] theorem names_link_self : (directory.link name file).names name = some file :=
  Function.update_self ..

theorem names_link_of_ne (different : other ≠ name) :
    (directory.link name file).names other = directory.names other :=
  Function.update_of_ne different _ _

@[simp] theorem contents_link : (directory.link name file).contents = directory.contents := rfl

@[simp] theorem next_link : (directory.link name file).next = directory.next := rfl

@[simp] theorem names_unlink_self : (directory.unlink name).names name = none :=
  Function.update_self ..

theorem names_unlink_of_ne (different : other ≠ name) :
    (directory.unlink name).names other = directory.names other :=
  Function.update_of_ne different _ _

@[simp] theorem contents_unlink : (directory.unlink name).contents = directory.contents := rfl

@[simp] theorem next_unlink : (directory.unlink name).next = directory.next := rfl

end Directory

/-- A temporary name is not the destination. -/
theorem IsTemporary.ne {destination temporary : Text}
    (isTemporary : IsTemporary destination temporary) : temporary ≠ destination := by
  obtain ⟨middle, length, rfl⟩ := isTemporary
  intro same
  have lengths := congrArg List.length same
  simp only [List.length_append] at lengths
  omega

/-! ## One call to the operating system -/

/-- What a step leaves alone. -/
structure SparesOthers (destination : Text) (stage stage' : SaveStage) (before after : Directory) :
    Prop where
  names_eq : ∀ name, name ≠ destination → stage.temporary ≠ some name →
    stage'.temporary ≠ some name → after.names name = before.names name
  contents_eq : ∀ file, file < before.next →
    (∀ temporary rest, stage ≠ .writing temporary file rest) →
    after.contents file = before.contents file
  next_le : before.next ≤ after.next
  named : ∀ name file, after.names name = some file → before.names name = some file ∨
    file = before.next ∧ after.next = file + 1 ∧ stage'.temporary = some name ∨
    name = destination ∧ ∃ temporary, stage = .publishing temporary ∧
      before.names temporary = some file

/-- A name for a file that has no other name. -/
structure Owns (destination : Text) (directory : Directory) (temporary : Text) (file : Nat) :
    Prop where
  isTemporary : IsTemporary destination temporary
  names_eq : directory.names temporary = some file
  only : ∀ name, directory.names name = some file → name = temporary

variable [Platform] [Sealing] {destination : Text} {call : SaveCall} {before after : Directory}
  {stage stage' : SaveStage}

/-- What holds of a save. -/
def SaveStage.Holds (destination : Text) (call : SaveCall) (directory : Directory) :
    SaveStage → Prop
  | .creating content => call.content = .ok content
  | .writing temporary file rest => Owns destination directory temporary file ∧
      call.content = .ok (directory.contents file ++ rest)
  | .publishing temporary => ∃ file, Owns destination directory temporary file ∧
      call.content = .ok (directory.contents file)
  | .cleaning temporary _ => IsTemporary destination temporary ∧
      (call.overwrite = false → directory.names temporary ≠ none)
  | _ => True

omit [Platform] [Sealing] in
theorem SparesOthers.refl (directory : Directory) :
    SparesOthers destination stage stage' directory directory :=
  ⟨fun _ _ _ _ => rfl, fun _ _ _ => rfl, Nat.le_refl _, fun _ _ named => .inl named⟩

namespace SaveStage

theorem Holds.isTemporary {temporary : Text} (holds : stage.Holds destination call before)
    (goes : stage.temporary = some temporary) : IsTemporary destination temporary := by
  cases stage with
  | writing other file rest =>
      obtain rfl : other = temporary := by simpa [SaveStage.temporary] using goes
      exact holds.1.isTemporary
  | publishing other =>
      obtain rfl : other = temporary := by simpa [SaveStage.temporary] using goes
      obtain ⟨file, owns, -⟩ := holds
      exact owns.isTemporary
  | cleaning other outcome =>
      obtain rfl : other = temporary := by simpa [SaveStage.temporary] using goes
      exact holds.1
  | checking | preparing | creating | done => cases goes

/-- Who does not overwrite keeps the name of the temporary file until the end. -/
theorem Holds.names_ne_none {temporary : Text} (holds : stage.Holds destination call before)
    (overwrite : call.overwrite = false) (goes : stage.temporary = some temporary) :
    before.names temporary ≠ none := by
  cases stage with
  | writing other file rest =>
      obtain rfl : other = temporary := by simpa [SaveStage.temporary] using goes
      simp [holds.1.names_eq]
  | publishing other =>
      obtain rfl : other = temporary := by simpa [SaveStage.temporary] using goes
      obtain ⟨file, owns, -⟩ := holds
      simp [owns.names_eq]
  | cleaning other outcome =>
      obtain rfl : other = temporary := by simpa [SaveStage.temporary] using goes
      exact holds.2 overwrite
  | checking | preparing | creating | done => cases goes

/-- A step leaves alone what belongs to others. -/
theorem Step.spares (step : SaveStage.Step destination call before stage after stage') :
    SparesOthers destination stage stage' before after := by
  cases step with
  | create isTemporary absent =>
      rename_i content temporary
      refine ⟨fun name _ _ other => ?_, fun file known _ => ?_, Nat.le_succ _,
        fun name file named => ?_⟩
      · exact Directory.names_create_of_ne fun same => other (by rw [same, SaveStage.temporary])
      · exact Directory.contents_create_of_ne (Nat.ne_of_lt known)
      · by_cases same : name = temporary
        · subst same
          rw [Directory.names_create_self, Option.some_inj] at named
          exact .inr (.inl ⟨named.symm, by rw [Directory.next_create, named], rfl⟩)
        · rw [Directory.names_create_of_ne same] at named
          exact .inl named
  | write count =>
      refine ⟨fun _ _ _ _ => rfl, fun file _ other => ?_, Nat.le_refl _, fun _ _ named => .inl named⟩
      exact Directory.contents_append_of_ne (fun same => other _ _ (by rw [same])) _
  | replace overwrite named =>
      rename_i temporary file
      refine ⟨fun name notDestination notOwn _ => ?_, fun _ _ _ => rfl, Nat.le_refl _,
        fun name other named' => ?_⟩
      · rw [Directory.names_unlink_of_ne fun same => notOwn (by rw [same, SaveStage.temporary]),
          Directory.names_link_of_ne notDestination]
      · have notOwn : name ≠ temporary := by
          rintro rfl
          rw [Directory.names_unlink_self] at named'
          cases named'
        rw [Directory.names_unlink_of_ne notOwn] at named'
        by_cases same : name = destination
        · subst same
          rw [Directory.names_link_self, Option.some_inj] at named'
          subst named'
          exact .inr (.inr ⟨rfl, temporary, rfl, named⟩)
        · rw [Directory.names_link_of_ne same] at named'
          exact .inl named'
  | link overwrite named absent =>
      rename_i temporary file
      refine ⟨fun name notDestination _ _ => Directory.names_link_of_ne notDestination,
        fun _ _ _ => rfl, Nat.le_refl _, fun name other named' => ?_⟩
      by_cases same : name = destination
      · subst same
        rw [Directory.names_link_self, Option.some_inj] at named'
        subst named'
        exact .inr (.inr ⟨rfl, temporary, rfl, named⟩)
      · rw [Directory.names_link_of_ne same] at named'
        exact .inl named'
  | clean =>
      rename_i temporary outcome
      refine ⟨fun name _ notOwn _ => ?_, fun _ _ _ => rfl, Nat.le_refl _, fun name file named => ?_⟩
      · exact Directory.names_unlink_of_ne fun same => notOwn (by rw [same, SaveStage.temporary])
      · have notOwn : name ≠ temporary := by
          rintro rfl
          rw [Directory.names_unlink_self] at named
          cases named
        rw [Directory.names_unlink_of_ne notOwn] at named
        exact .inl named
  | found | absent | checkFails | prepare | refuse | prepareFails | createFails | close | writeFails
  | linkExists | publishFails | cleanFails => exact .refl _

/-- The save that makes the step goes on as it should. -/
theorem Step.holds (step : SaveStage.Step destination call before stage after stage')
    (bound : ∀ name file, before.names name = some file → file < before.next)
    (holds : stage.Holds destination call before) : stage'.Holds destination call after := by
  cases step with
  | found | checkFails | prepareFails | refuse | createFails | clean | cleanFails | absent => trivial
  | prepare content => exact content
  | create isTemporary absent =>
      rename_i content temporary
      refine ⟨⟨isTemporary, Directory.names_create_self, fun name named => ?_⟩, ?_⟩
      · by_contra other
        rw [Directory.names_create_of_ne other] at named
        exact Nat.lt_irrefl _ (bound name _ named)
      · rw [Directory.contents_create_self]
        exact holds
  | write count =>
      obtain ⟨⟨isTemporary, named, only⟩, content⟩ := holds
      refine ⟨⟨isTemporary, named, only⟩, ?_⟩
      rw [Directory.contents_append_self, List.append_assoc, List.take_append_drop]
      exact content
  | close =>
      obtain ⟨owns, content⟩ := holds
      rw [List.append_nil] at content
      exact ⟨_, owns, content⟩
  | writeFails =>
      obtain ⟨owns, content⟩ := holds
      exact ⟨owns.isTemporary, fun _ => by simp [owns.names_eq]⟩
  | replace overwrite named =>
      obtain ⟨file, owns, content⟩ := holds
      exact ⟨owns.isTemporary, fun exclusive => by simp [overwrite] at exclusive⟩
  | link overwrite named absent =>
      obtain ⟨file, owns, content⟩ := holds
      refine ⟨owns.isTemporary, fun _ => ?_⟩
      rw [Directory.names_link_of_ne owns.isTemporary.ne, owns.names_eq]
      exact Option.some_ne_none _
  | linkExists | publishFails =>
      obtain ⟨file, owns, content⟩ := holds
      exact ⟨owns.isTemporary, fun _ => by simp [owns.names_eq]⟩

/-- A step puts the file into its place, or it leaves the place alone. -/
theorem Step.placed (step : SaveStage.Step destination call before stage after stage')
    (holds : stage.Holds destination call before) :
    after.names destination = before.names destination ∧ (stage'.published → stage.published) ∨
      ∃ temporary file, stage = .publishing temporary ∧ stage' = .cleaning temporary (.ok ()) ∧
        before.names temporary = some file ∧ after.names destination = some file ∧
        (call.overwrite = false → before.names destination = none) := by
  cases step with
  | replace overwrite named =>
      rename_i temporary file
      obtain ⟨_, owns, -⟩ := holds
      refine .inr ⟨temporary, file, rfl, rfl, named, ?_,
        fun exclusive => by simp [overwrite] at exclusive⟩
      rw [Directory.names_unlink_of_ne owns.isTemporary.ne.symm, Directory.names_link_self]
  | link overwrite named absent =>
      rename_i temporary file
      exact .inr ⟨temporary, file, rfl, rfl, named, Directory.names_link_self, fun _ => absent⟩
  | create isTemporary absent => exact .inl ⟨Directory.names_create_of_ne isTemporary.ne.symm, id⟩
  | clean =>
      refine .inl ⟨Directory.names_unlink_of_ne holds.1.ne.symm, fun published => ?_⟩
      rename_i outcome
      cases outcome with
      | error failure => exact published.elim
      | ok => trivial
  | found | absent | checkFails | prepare | refuse | prepareFails | createFails | close | writeFails
  | linkExists | publishFails | cleanFails | write => exact .inl ⟨rfl, False.elim⟩

/-- A name for a temporary file comes from the stage before, or it was just drawn. -/
theorem Step.temporary (step : SaveStage.Step destination call before stage after stage')
    {temporary : Text} (goes : stage'.temporary = some temporary) :
    stage.temporary = some temporary ∨
      before.names temporary = none ∧ after.names temporary ≠ none := by
  cases step with
  | create isTemporary absent =>
      obtain rfl := Option.some_inj.mp goes
      exact .inr ⟨absent, by simp⟩
  | found | absent | checkFails | prepare | refuse | prepareFails | createFails | clean
  | cleanFails => cases goes
  | write | close | writeFails | replace | link | linkExists | publishFails => exact .inl goes

end SaveStage

omit [Platform] [Sealing] in
/-- Where names are bound to files that were made, they are so after a step. -/
theorem SparesOthers.bound (spares : SparesOthers destination stage stage' before after)
    (bound : ∀ name file, before.names name = some file → file < before.next) (name : Text)
    (file : Nat) (named : after.names name = some file) : file < after.next := by
  rcases spares.named name file named with known | ⟨-, next, -⟩ | ⟨-, temporary, -, known⟩
  · exact Nat.lt_of_lt_of_le (bound _ _ known) spares.next_le
  · omega
  · exact Nat.lt_of_lt_of_le (bound _ _ known) spares.next_le

/-- A file that belongs to one save stays as it is when another one makes a step. -/
theorem Owns.of_spares {temporary : Text} {file : Nat}
    (bound : ∀ name file, before.names name = some file → file < before.next)
    (holds : stage.Holds destination call before)
    (spares : SparesOthers destination stage stage' before after)
    (notOwn : stage.temporary ≠ some temporary) (notOwn' : stage'.temporary ≠ some temporary)
    (owns : Owns destination before temporary file) :
    Owns destination after temporary file ∧ after.contents file = before.contents file := by
  obtain ⟨isTemporary, named, only⟩ := owns
  have known := bound _ _ named
  refine ⟨⟨isTemporary, ?_, fun name named' => ?_⟩, spares.contents_eq file known ?_⟩
  · rw [spares.names_eq _ isTemporary.ne notOwn notOwn', named]
  · rcases spares.named name file named' with before' | ⟨isNew, -, -⟩ | ⟨-, other, publishes, other'⟩
    · exact only name before'
    · omega
    · rw [only other other'] at publishes
      exact absurd (by rw [publishes, SaveStage.temporary]) notOwn
  · rintro other rest rfl
    exact notOwn (by rw [SaveStage.temporary, ← only other holds.1.names_eq])

theorem SaveStage.Holds.of_spares {other : Saver}
    (bound : ∀ name file, before.names name = some file → file < before.next)
    (holds : stage.Holds destination call before)
    (spares : SparesOthers destination stage stage' before after)
    (apart : ∀ temporary, other.stage.temporary = some temporary →
      stage.temporary ≠ some temporary ∧ stage'.temporary ≠ some temporary)
    (holds' : other.stage.Holds destination other.call before) :
    other.stage.Holds destination other.call after := by
  obtain ⟨call', stage''⟩ := other
  cases stage'' with
  | writing temporary file rest =>
      obtain ⟨owns, content⟩ := holds'
      obtain ⟨notOwn, notOwn'⟩ := apart temporary rfl
      obtain ⟨owns', contents⟩ := Owns.of_spares bound holds spares notOwn notOwn' owns
      exact ⟨owns', by rw [contents]; exact content⟩
  | publishing temporary =>
      obtain ⟨file, owns, content⟩ := holds'
      obtain ⟨notOwn, notOwn'⟩ := apart temporary rfl
      obtain ⟨owns', contents⟩ := Owns.of_spares bound holds spares notOwn notOwn' owns
      exact ⟨file, owns', by rw [contents]; exact content⟩
  | cleaning temporary outcome =>
      obtain ⟨isTemporary, named⟩ := holds'
      obtain ⟨notOwn, notOwn'⟩ := apart temporary rfl
      exact ⟨isTemporary, by rwa [spares.names_eq _ isTemporary.ne notOwn notOwn']⟩
  | creating content => exact holds'
  | checking | preparing | done => trivial

/-! ## All callers -/

namespace Saves

variable {saves saves' : Saves}

/-- Two saves go by different names. -/
def Apart (saver other : Saver) : Prop :=
  ∀ temporary, saver.stage.temporary = some temporary → other.stage.temporary ≠ some temporary

omit [Platform] [Sealing] in
theorem Apart.symm {saver other : Saver} (apart : Apart saver other) : Apart other saver :=
  fun temporary goes same => apart temporary same goes

/-- Every temporary file belongs to one save. -/
structure Sound (destination : Text) (saves : Saves) : Prop where
  bound : ∀ name file, saves.directory.names name = some file → file < saves.directory.next
  apart : saves.savers.Pairwise Apart
  holds : ∀ saver ∈ saves.savers, saver.stage.Holds destination saver.call saves.directory

/-- Every temporary file belongs to one save, as long as no name is drawn twice. -/
theorem Sound.step (sound : Sound destination saves) (step : Step destination saves saves')
    (fresh : ¬ Redraws saves saves') : Sound destination saves' := by
  obtain ⟨bound, apart, holds⟩ := sound
  cases step with
  | begin call =>
      refine ⟨bound, List.pairwise_append.mpr ⟨apart, List.pairwise_singleton _ _, ?_⟩, ?_⟩
      · intro saver _ other isNew temporary _ goes
        rw [List.mem_singleton.mp isNew] at goes
        cases goes
      · intro saver isMember
        rcases List.mem_append.mp isMember with old | isNew
        · exact holds saver old
        · rw [List.mem_singleton.mp isNew]
          trivial
  | @step before after front back call stage stage' step =>
      have spares := step.spares
      have ownHolds := holds ⟨call, stage⟩ (by simp)
      rw [List.pairwise_middle Apart.symm, List.pairwise_cons] at apart
      obtain ⟨ownApart, othersApart⟩ := apart
      -- No one goes by a name that was just drawn.
      have ownApart' : ∀ other ∈ front ++ back, ∀ temporary,
          other.stage.temporary = some temporary →
          stage.temporary ≠ some temporary ∧ stage'.temporary ≠ some temporary := by
        intro other isMember temporary goes
        have notOwn : stage.temporary ≠ some temporary :=
          fun same => ownApart other isMember temporary same goes
        refine ⟨notOwn, fun same => ?_⟩
        rcases step.temporary same with old | ⟨absent, present⟩
        · exact notOwn old
        · refine fresh ⟨other, ?_, temporary, goes, absent, present⟩
          simp only [List.mem_append, List.mem_cons] at isMember ⊢
          tauto
      refine ⟨spares.bound bound, ?_, fun saver isMember => ?_⟩
      · rw [List.pairwise_middle Apart.symm, List.pairwise_cons]
        exact ⟨fun other isMember temporary goes same => (ownApart' other isMember temporary same).2
          goes, othersApart⟩
      · rcases List.mem_append.mp isMember with inFront | inBack
        · exact SaveStage.Holds.of_spares bound ownHolds spares (ownApart' saver (by simp [inFront]))
            (holds saver (by simp [inFront]))
        · rcases List.mem_cons.mp inBack with rfl | inBack
          · exact step.holds bound ownHolds
          · exact SaveStage.Holds.of_spares bound ownHolds spares (ownApart' saver (by simp [inBack]))
              (holds saver (by simp [inBack]))

theorem Sound.start {directory : Directory}
    (bound : ∀ name file, directory.names name = some file → file < directory.next) :
    Sound destination ⟨directory, []⟩ :=
  ⟨bound, .nil, fun _ isMember => absurd isMember List.not_mem_nil⟩

omit [Platform] [Sealing] in
theorem Exclusive.start (directory : Directory) : Exclusive ⟨directory, []⟩ :=
  fun _ isMember => absurd isMember List.not_mem_nil

theorem Sound.run {directory : Directory} {saves : Saves}
    (bound : ∀ name file, directory.names name = some file → file < directory.next)
    (run : Relation.ReflTransGen (FreshStep destination) ⟨directory, []⟩ saves) :
    Sound destination saves := by
  induction run with
  | refl => exact .start bound
  | tail _ step ih => exact ih.step step.1 step.2

/-- No name is drawn again. -/
theorem Sound.not_redraws (sound : Sound destination saves) (exclusive : Exclusive saves)
    (saves' : Saves) : ¬ Redraws saves saves' := by
  rintro ⟨saver, isMember, temporary, goes, absent, -⟩
  exact (sound.holds saver isMember).names_ne_none (exclusive saver isMember) goes absent

theorem Exclusive.run {start saves : Saves} (exclusive : Exclusive start)
    (run : Relation.ReflTransGen (ExclusiveStep destination) start saves) : Exclusive saves := by
  cases run with
  | refl => exact exclusive
  | tail _ step => exact step.2

theorem Sound.exclusiveRun {start saves : Saves} (sound : Sound destination start)
    (exclusive : Exclusive start)
    (run : Relation.ReflTransGen (ExclusiveStep destination) start saves) :
    Sound destination saves := by
  induction run with
  | refl => exact sound
  | tail run step ih => exact ih.step step.1 (ih.not_redraws (exclusive.run run) _)

/-- Where no one overwrites, no name is drawn again. -/
theorem Sound.freshRun {start saves : Saves} (sound : Sound destination start)
    (exclusive : Exclusive start)
    (run : Relation.ReflTransGen (ExclusiveStep destination) start saves) :
    Relation.ReflTransGen (FreshStep destination) start saves := by
  induction run with
  | refl => exact .refl
  | tail run step ih =>
      exact ih.tail ⟨step.1, (sound.exclusiveRun exclusive run).not_redraws (exclusive.run run) _⟩

/-! ## Two callers -/

/-- A caller among those who do not overwrite makes its next call. -/
theorem ExclusiveStep.of_step {directory directory' : Directory} {front back : List Saver}
    {stage stage' : SaveStage}
    (free : ∀ saver ∈ front ++ ⟨call, stage⟩ :: back, saver.call.overwrite = false)
    (step : SaveStage.Step destination call directory stage directory' stage') :
    ExclusiveStep destination ⟨directory, front ++ ⟨call, stage⟩ :: back⟩
      ⟨directory', front ++ ⟨call, stage'⟩ :: back⟩ := by
  refine ⟨.step step, fun saver isMember => ?_⟩
  rcases List.mem_append.mp isMember with inFront | inBack
  · exact free saver (by simp [inFront])
  · rcases List.mem_cons.mp inBack with rfl | inBack
    · exact free ⟨call, stage⟩ (by simp)
    · exact free saver (by simp [inBack])

/-- Of two callers who find the place free, the one that publishes later is refused, and both
clean up. -/
theorem exists_race {directory : Directory} {other : SaveCall} {content content' : Bytes}
    {temporary temporary' : Text} (free : call.overwrite = false) (free' : other.overwrite = false)
    (written : call.content = .ok content) (written' : other.content = .ok content')
    (isTemporary : IsTemporary destination temporary)
    (isTemporary' : IsTemporary destination temporary') (differ : temporary' ≠ temporary)
    (unused : directory.names temporary = none) (unused' : directory.names temporary' = none)
    (absent : directory.names destination = none) :
    ∃ final, Relation.ReflTransGen (ExclusiveStep destination) ⟨directory, []⟩
      ⟨final, [⟨call, .done (.ok ())⟩, ⟨other, .done (.error alreadyExists)⟩]⟩ := by
  have one : ∀ {before after : Directory} {stage stage' waiting : SaveStage},
      SaveStage.Step destination call before stage after stage' →
      ExclusiveStep destination ⟨before, [⟨call, stage⟩, ⟨other, waiting⟩]⟩
        ⟨after, [⟨call, stage'⟩, ⟨other, waiting⟩]⟩ := by
    intro before after stage stage' waiting step
    exact @ExclusiveStep.of_step _ _ destination call _ _ [] [⟨other, waiting⟩] _ _
      (by simp [free, free']) step
  have two : ∀ {before after : Directory} {stage stage' waiting : SaveStage},
      SaveStage.Step destination other before stage after stage' →
      ExclusiveStep destination ⟨before, [⟨call, waiting⟩, ⟨other, stage⟩]⟩
        ⟨after, [⟨call, waiting⟩, ⟨other, stage'⟩]⟩ := by
    intro before after stage stage' waiting step
    exact @ExclusiveStep.of_step _ _ destination other _ _ [⟨call, waiting⟩] [] _ _
      (by simp [free, free']) step
  have writesAll : ∀ {saving : SaveCall} {before : Directory} {name : Text} {file : Nat}
      {rest : Bytes}, SaveStage.Step destination saving before (.writing name file rest)
        (before.append file rest) (.writing name file []) := by
    intro saving before name file rest
    have all := @SaveStage.Step.write _ _ destination saving before name file rest rest.length
    rwa [List.take_length, List.drop_length] at all
  have begun : ExclusiveStep destination ⟨directory, []⟩ ⟨directory, [⟨call, .checking⟩]⟩ :=
    ⟨.begin call, by simp [Exclusive, free]⟩
  have joined : ExclusiveStep destination ⟨directory, [⟨call, .checking⟩]⟩
      ⟨directory, [⟨call, .checking⟩, ⟨other, .checking⟩]⟩ :=
    ⟨.begin other, by simp [Exclusive, free, free']⟩
  -- Both write their temporary files before one of them publishes.
  have unused'' : (directory.create temporary).names temporary' = none := by
    rw [Directory.names_create_of_ne differ, unused']
  have prepared : Relation.ReflTransGen (ExclusiveStep destination) ⟨directory, []⟩
      ⟨(((directory.create temporary).create temporary').append directory.next content).append
        (directory.create temporary).next content',
        [⟨call, .publishing temporary⟩, ⟨other, .publishing temporary'⟩]⟩ :=
    .tail (.tail (.tail (.tail (.tail (.tail (.tail (.tail (.tail (.tail (.tail (.single begun)
      joined) (one (.absent (.inr absent)))) (two (.absent (.inr absent)))) (one (.prepare written)))
      (two (.prepare written'))) (one (.create isTemporary unused)))
      (two (.create isTemporary' unused''))) (one writesAll)) (two writesAll)) (one .close))
      (two .close)
  have named : ((((directory.create temporary).create temporary').append directory.next
      content).append (directory.create temporary).next content').names temporary =
        some directory.next := by
    rw [Directory.names_append, Directory.names_append, Directory.names_create_of_ne differ.symm,
      Directory.names_create_self]
  have absent' : ((((directory.create temporary).create temporary').append directory.next
      content).append (directory.create temporary).next content').names destination = none := by
    rw [Directory.names_append, Directory.names_append,
      Directory.names_create_of_ne isTemporary'.ne.symm,
      Directory.names_create_of_ne isTemporary.ne.symm, absent]
  exact ⟨_, .tail (.tail (.tail (.tail prepared (one (.link free named absent')))
    (two (.linkExists free' (by rw [Directory.names_link_self]; exact Option.some_ne_none _))))
    (one .clean)) (two .clean)⟩

end Saves

/-- A directory with one other file. -/
def notesDirectory : Directory where
  names name := if name = text "notes.txt" then some 0 else none
  contents _ := text "backup on disk" |>.map UInt8.ofNat
  next := 1

/-- The path of the wallet file. -/
def savingsPath : Text := text "savings.json"

omit [Platform] [Sealing] in
theorem notesDirectory_bound (name : Text) (file : Nat)
    (named : notesDirectory.names name = some file) : file < notesDirectory.next := by
  rw [notesDirectory] at named
  dsimp only at named
  split at named
  · cases named
    exact Nat.zero_lt_one
  · cases named

omit [Platform] [Sealing] in
/-- The wallet is saved by two callers at once, and the second one is refused. -/
theorem savings_saved : ∃ (call : SaveCall) (final : Directory),
    @NamedWallet.new savingsPlatform (text "savings") savingsKey testnet = .ok call.wallet ∧
    call.password = text "secret" ∧
    Relation.ReflTransGen (@Saves.ExclusiveStep savingsPlatform savingsSealing savingsPath)
      ⟨notesDirectory, []⟩
      ⟨final, [⟨call, .done (.ok ())⟩, ⟨call, .done (.error alreadyExists)⟩]⟩ := by
  obtain ⟨wallet, made⟩ := savings_made
  obtain ⟨content, _, _, _, written, -⟩ := @exists_sealed savingsPlatform savingsSealing
    (text "savings") (text "secret") savingsKey savingsSalt savingsNonce _ testnet wallet made
    (by decide) (by decide) (by decide) (by decide) secret_encodes
  have first : IsTemporary savingsPath (text ".savings.json.8wdn3z_q.tmp") :=
    ⟨text "8wdn3z_q", by decide, by decide⟩
  have second : IsTemporary savingsPath (text ".savings.json.kx0_a71b.tmp") :=
    ⟨text "kx0_a71b", by decide, by decide⟩
  obtain ⟨final, run⟩ := @Saves.exists_race savingsPlatform savingsSealing savingsPath
    ⟨wallet, text "secret", savingsSalt, savingsNonce, by decide, by decide, false⟩ notesDirectory
    ⟨wallet, text "secret", savingsSalt, savingsNonce, by decide, by decide, false⟩
    content content _ _ rfl rfl written written first second (by decide) (by decide) (by decide)
    (by decide)
  exact ⟨_, final, made, rfl, run⟩

/-! ## The place -/

namespace Saves

variable {saves saves' : Saves}

omit [Platform] [Sealing] in
theorem not_isTemporary_destination : ¬ IsTemporary destination destination := fun isTemporary =>
  isTemporary.ne rfl

/-- A file with its name in place, which is not a temporary one, is as it was. -/
theorem read_of_names_eq {name : Text}
    (bound : ∀ name file, before.names name = some file → file < before.next)
    (holds : stage.Holds destination call before)
    (spares : SparesOthers destination stage stage' before after)
    (notTemporary : ¬ IsTemporary destination name) (same : after.names name = before.names name) :
    after.read name = before.read name := by
  rw [Directory.read, Directory.read, same]
  cases named : before.names name with
  | none => rfl
  | some file =>
      rw [Option.map_some, Option.map_some, spares.contents_eq file (bound _ _ named)]
      rintro temporary rest rfl
      rw [holds.1.only name named] at notTemporary
      exact notTemporary holds.1.isTemporary

/-- A step leaves the place alone, or it puts all of one document there. -/
theorem read_destination (step : SaveStage.Step destination call before stage after stage')
    (bound : ∀ name file, before.names name = some file → file < before.next)
    (holds : stage.Holds destination call before) :
    after.read destination = before.read destination ∧ (stage'.published → stage.published) ∨
      ∃ content, call.content = .ok content ∧ after.read destination = some content ∧
        (call.overwrite = false → before.read destination = none) := by
  rcases step.placed holds with ⟨same, published⟩ |
    ⟨temporary, file, rfl, rfl, named, placed, exclusive⟩
  · exact .inl ⟨read_of_names_eq bound holds step.spares not_isTemporary_destination same, published⟩
  · obtain ⟨file', owns, content⟩ := holds
    obtain rfl : file' = file := Option.some_inj.mp (owns.names_eq.symm.trans named)
    have contents := step.spares.contents_eq file' (bound _ _ named) (fun _ _ same => by cases same)
    refine .inr ⟨_, content, ?_, fun free => ?_⟩
    · rw [Directory.read, placed, Option.map_some, contents]
    · rw [Directory.read, exclusive free, Option.map_none]

/-- What is in the place was there before, or a caller wrote it. -/
def Kept (destination : Text) (start : Directory) (saves : Saves) : Prop :=
  saves.directory.read destination = start.read destination ∨
    ∃ saver ∈ saves.savers, ∃ content, saver.call.content = .ok content ∧
      saves.directory.read destination = some content

theorem Kept.step {start : Directory} (kept : Kept destination start saves)
    (sound : Sound destination saves) (step : Step destination saves saves') :
    Kept destination start saves' := by
  cases step with
  | begin call =>
      rcases kept with same | ⟨saver, isMember, content⟩
      · exact .inl same
      · exact .inr ⟨saver, List.mem_append_left _ isMember, content⟩
  | @step before after front back call stage stage' step =>
      rcases read_destination step sound.bound (sound.holds ⟨call, stage⟩ (by simp)) with
        ⟨same, -⟩ | ⟨content, written, placed, -⟩
      · rcases kept with old | ⟨saver, isMember, content, written, placed⟩
        · exact .inl (same.trans old)
        · -- The caller may be the one that made the step; its document is the same.
          rcases List.mem_append.mp isMember with inFront | inBack
          · exact .inr ⟨saver, by simp [inFront], content, written, same.trans placed⟩
          · rcases List.mem_cons.mp inBack with rfl | inBack
            · exact .inr ⟨⟨call, stage'⟩, by simp, content, written, same.trans placed⟩
            · exact .inr ⟨saver, by simp [inBack], content, written, same.trans placed⟩
      · exact .inr ⟨⟨call, stage'⟩, by simp, content, written, placed⟩

/-- **The place never holds a part of a document**, whoever fails or stops, and whatever the order
of the calls: it holds what was there before, or all that one caller wrote. -/
theorem whole_document {directory : Directory} {saves : Saves}
    (bound : ∀ name file, directory.names name = some file → file < directory.next)
    (run : Relation.ReflTransGen (FreshStep destination) ⟨directory, []⟩ saves) :
    saves.directory.read destination = directory.read destination ∨
      ∃ saver ∈ saves.savers, ∃ content, saver.call.content = .ok content ∧
        saves.directory.read destination = some content := by
  induction run with
  | refl => exact .inl rfl
  | tail run step ih => exact Kept.step ih (Sound.run bound run) step.1

omit [Platform] [Sealing] in
/-- The place that two callers raced for holds a whole document. -/
theorem whole_document_savings : ∃ (call : SaveCall) (final : Directory),
    Relation.ReflTransGen (@FreshStep savingsPlatform savingsSealing savingsPath)
      ⟨notesDirectory, []⟩
      ⟨final, [⟨call, .done (.ok ())⟩, ⟨call, .done (.error alreadyExists)⟩]⟩ ∧
    (final.read savingsPath = none ∨
      ∃ saver ∈ [(⟨call, .done (.ok ())⟩ : Saver), ⟨call, .done (.error alreadyExists)⟩], ∃ content,
        @SaveCall.content savingsPlatform savingsSealing saver.call = .ok content ∧
        final.read savingsPath = some content) := by
  obtain ⟨call, final, -, -, run⟩ := savings_saved
  have fresh := @Sound.freshRun savingsPlatform savingsSealing savingsPath ⟨notesDirectory, []⟩ _
    (@Sound.start savingsPlatform savingsSealing _ _ notesDirectory_bound) (.start _) run
  exact ⟨call, final, fresh,
    @whole_document savingsPlatform savingsSealing savingsPath notesDirectory _ notesDirectory_bound
      fresh⟩

/-! ## The other files -/

/-- The temporary file goes away in the end, unless a call fails. -/
theorem temporary_ends (step : SaveStage.Step destination call before stage after stage')
    {temporary : Text} (goes : stage.temporary = some temporary) :
    stage'.temporary = some temporary ∨ after.names temporary = none ∨
      stage' = .done (.error .osError) := by
  cases step with
  | found | absent | checkFails | prepare | refuse | prepareFails | create | createFails => cases goes
  | write | close | writeFails | replace | link | linkExists | publishFails => exact .inl goes
  | clean =>
      obtain rfl := Option.some_inj.mp goes
      exact .inr (.inl Directory.names_unlink_self)
  | cleanFails => exact .inr (.inr rfl)

/-- Only temporary files come and go beside the place. -/
structure Framed (destination : Text) (start : Directory) (saves : Saves) : Prop where
  kept : ∀ name file, name ≠ destination → start.names name = some file →
    saves.directory.names name = some file ∧ saves.directory.contents file = start.contents file
  drawn : ∀ saver ∈ saves.savers, ∀ temporary, saver.stage.temporary = some temporary →
    start.names temporary = none
  left : ∀ name, name ≠ destination → start.names name = none → saves.directory.names name ≠ none →
    ∃ saver ∈ saves.savers,
      saver.stage.temporary = some name ∨ saver.stage = .done (.error .osError)

theorem Framed.step {start : Directory} (framed : Framed destination start saves)
    (sound : Sound destination saves) (step : Step destination saves saves') :
    Framed destination start saves' := by
  obtain ⟨kept, drawn, left⟩ := framed
  cases step with
  | begin call =>
      refine ⟨kept, fun saver isMember temporary goes => ?_, fun name other absent present => ?_⟩
      · rcases List.mem_append.mp isMember with old | isNew
        · exact drawn saver old temporary goes
        · rw [List.mem_singleton.mp isNew] at goes
          cases goes
      · obtain ⟨saver, isMember, whose⟩ := left name other absent present
        exact ⟨saver, List.mem_append_left _ isMember, whose⟩
  | @step before after front back call stage stage' step =>
      have spares := step.spares
      have holds := sound.holds ⟨call, stage⟩ (by simp)
      have ownDrawn := drawn ⟨call, stage⟩ (by simp)
      have ownDrawn' : ∀ temporary, stage'.temporary = some temporary →
          start.names temporary = none := by
        intro temporary goes
        rcases step.temporary goes with old | ⟨absent, -⟩
        · exact ownDrawn temporary old
        · have other := ((step.holds sound.bound holds).isTemporary goes).ne
          cases present : start.names temporary with
          | none => rfl
          | some file =>
              rw [(kept temporary file other present).1] at absent
              cases absent
      refine ⟨fun name file other present => ?_, fun saver isMember temporary goes => ?_,
        fun name other absent present => ?_⟩
      · obtain ⟨named, contents⟩ := kept name file other present
        have notOwn : stage.temporary ≠ some name := fun goes => by
          rw [ownDrawn name goes] at present
          cases present
        have notOwn' : stage'.temporary ≠ some name := fun goes => by
          rw [ownDrawn' name goes] at present
          cases present
        refine ⟨(spares.names_eq name other notOwn notOwn').trans named,
          (spares.contents_eq file (sound.bound _ _ named) ?_).trans contents⟩
        rintro temporary rest rfl
        exact notOwn (by rw [SaveStage.temporary, ← holds.1.only name named])
      · rcases List.mem_append.mp isMember with inFront | inBack
        · exact drawn saver (by simp [inFront]) temporary goes
        · rcases List.mem_cons.mp inBack with rfl | inBack
          · exact ownDrawn' temporary goes
          · exact drawn saver (by simp [inBack]) temporary goes
      · obtain ⟨file, named⟩ := Option.ne_none_iff_exists'.mp present
        rcases spares.named name file named with known | ⟨-, -, goes⟩ | ⟨rfl, -⟩
        · have known : before.names name ≠ none := by
            rw [known]
            exact Option.some_ne_none _
          obtain ⟨saver, isMember, whose⟩ := left name other absent known
          rcases List.mem_append.mp isMember with inFront | inBack
          · exact ⟨saver, by simp [inFront], whose⟩
          · rcases List.mem_cons.mp inBack with rfl | inBack
            · refine ⟨⟨call, stage'⟩, by simp, ?_⟩
              rcases whose with goes | failed
              · rcases temporary_ends step goes with goes' | gone | failed
                · exact .inl goes'
                · exact absurd gone present
                · exact .inr failed
              · -- A save that is done makes no step.
                change stage = _ at failed
                subst failed
                cases step
            · exact ⟨saver, by simp [inBack], whose⟩
        · exact ⟨⟨call, stage'⟩, by simp, .inl goes⟩
        · exact absurd rfl other

/-- **Other files stay as they are.** What is new beside the place is the temporary file of a save
that is not done, or something failed in the operating system. -/
theorem others_kept {directory : Directory} {saves : Saves}
    (bound : ∀ name file, directory.names name = some file → file < directory.next)
    (run : Relation.ReflTransGen (FreshStep destination) ⟨directory, []⟩ saves) :
    (∀ name content, name ≠ destination → directory.read name = some content →
      saves.directory.read name = some content) ∧
    ∀ name, name ≠ destination → directory.read name = none → saves.directory.read name ≠ none →
      ∃ saver ∈ saves.savers,
        saver.stage.temporary = some name ∨ saver.stage = .done (.error .osError) := by
  have framed : Framed destination directory saves := by
    induction run with
    | refl =>
        exact ⟨fun _ _ _ named => ⟨named, rfl⟩,
          fun _ isMember => absurd isMember List.not_mem_nil,
          fun _ _ absent present => absurd absent present⟩
    | tail run step ih => exact ih.step (Sound.run bound run) step.1
  refine ⟨fun name content other present => ?_, fun name other absent present => ?_⟩
  · obtain ⟨file, named, isContent⟩ := Option.map_eq_some_iff.mp present
    obtain ⟨named', contents⟩ := framed.kept name file other named
    rw [Directory.read, named', Option.map_some, contents, isContent]
  · exact framed.left name other (Option.map_eq_none_iff.mp absent)
      fun none => present (Option.map_eq_none_iff.mpr none)

omit [Platform] [Sealing] in
/-- After the two callers the other file is as it was, and nothing of theirs is left beside it. -/
theorem others_kept_savings : ∃ (call : SaveCall) (final : Directory),
    Relation.ReflTransGen (@FreshStep savingsPlatform savingsSealing savingsPath)
      ⟨notesDirectory, []⟩
      ⟨final, [⟨call, .done (.ok ())⟩, ⟨call, .done (.error alreadyExists)⟩]⟩ ∧
    final.read (text "notes.txt") = notesDirectory.read (text "notes.txt") ∧
    ∀ name, name ≠ savingsPath → name ≠ text "notes.txt" → final.read name = none := by
  obtain ⟨call, final, -, -, run⟩ := savings_saved
  have fresh := @Sound.freshRun savingsPlatform savingsSealing savingsPath ⟨notesDirectory, []⟩ _
    (@Sound.start savingsPlatform savingsSealing _ _ notesDirectory_bound) (.start _) run
  obtain ⟨kept, left⟩ := @others_kept savingsPlatform savingsSealing savingsPath notesDirectory _
    notesDirectory_bound fresh
  refine ⟨call, final, fresh, kept (text "notes.txt") _ (by decide) rfl, fun name place notes => ?_⟩
  by_contra present
  have absent : notesDirectory.read name = none := by
    simp [Directory.read, notesDirectory, notes]
  obtain ⟨saver, isMember, whose⟩ := left name place absent present
  rcases List.mem_cons.mp isMember with rfl | isMember
  · rcases whose with goes | failed
    · cases goes
    · cases failed
  · rw [List.mem_singleton.mp isMember] at whose
    rcases whose with goes | failed
    · cases goes
    · cases failed

/-! ## No one overwrites -/

/-- What is in the place stays there. -/
theorem Sound.read_kept {start saves : Saves} {content : Bytes} (sound : Sound destination start)
    (exclusive : Exclusive start)
    (run : Relation.ReflTransGen (ExclusiveStep destination) start saves)
    (present : start.directory.read destination = some content) :
    saves.directory.read destination = some content := by
  induction run with
  | refl => exact present
  | @tail middle last run step ih =>
      have sound' := sound.exclusiveRun exclusive run
      obtain ⟨step, -⟩ := step
      cases step with
      | begin call => exact ih
      | @step before after front back call stage stage' step =>
          rcases read_destination step sound'.bound (sound'.holds ⟨call, stage⟩ (by simp)) with
            ⟨same, -⟩ | ⟨_, -, -, absent⟩
          · exact same.trans ih
          · have none := absent (exclusive.run run ⟨call, stage⟩ (by simp))
            rw [show before.read destination = some content from ih] at none
            cases none

/-- Who is done wrote what is in the place, and no one else is done. -/
structure Settled (destination : Text) (start : Directory) (saves : Saves) : Prop where
  published : ∀ saver ∈ saves.savers, saver.stage.published → start.read destination = none ∧
    ∃ content, saver.call.content = .ok content ∧
      saves.directory.read destination = some content
  once : saves.savers.Pairwise fun saver other =>
    ¬ (saver.stage.published ∧ other.stage.published)

theorem Settled.step {start : Directory} (settled : Settled destination start saves)
    (kept : ∀ content, start.read destination = some content →
      saves.directory.read destination = some content)
    (sound : Sound destination saves) (exclusive : Exclusive saves)
    (step : Step destination saves saves') : Settled destination start saves' := by
  obtain ⟨published, once⟩ := settled
  cases step with
  | begin call =>
      refine ⟨fun saver isMember done => ?_, List.pairwise_append.mpr
        ⟨once, List.pairwise_singleton _ _, fun saver _ other isNew => ?_⟩⟩
      · rcases List.mem_append.mp isMember with old | isNew
        · exact published saver old done
        · rw [List.mem_singleton.mp isNew] at done
          exact done.elim
      · rw [List.mem_singleton.mp isNew]
        exact fun both => both.2
  | @step before after front back call stage stage' step =>
      have symmetric : ∀ {saver other : Saver},
          ¬ (saver.stage.published ∧ other.stage.published) →
          ¬ (other.stage.published ∧ saver.stage.published) :=
        fun apart both => apart both.symm
      rw [List.pairwise_middle symmetric, List.pairwise_cons] at once
      obtain ⟨ownOnce, othersOnce⟩ := once
      rcases read_destination step sound.bound (sound.holds ⟨call, stage⟩ (by simp)) with
        ⟨same, back'⟩ | ⟨content, written, placed, absent⟩
      · refine ⟨fun saver isMember done => ?_, ?_⟩
        · rcases List.mem_append.mp isMember with inFront | inBack
          · rw [show after.read destination = before.read destination from same]
            exact published saver (by simp [inFront]) done
          · rw [show after.read destination = before.read destination from same]
            rcases List.mem_cons.mp inBack with rfl | inBack
            · exact published ⟨call, stage⟩ (by simp) (back' done)
            · exact published saver (by simp [inBack]) done
        · rw [List.pairwise_middle symmetric, List.pairwise_cons]
          exact ⟨fun other isMember both => ownOnce other isMember ⟨back' both.1, both.2⟩, othersOnce⟩
      · -- The place was free, so that no one else is done.
        have free : before.read destination = none :=
          absent (exclusive ⟨call, stage⟩ (by simp))
        have notDone : ∀ other ∈ front ++ back, ¬ other.stage.published := by
          intro other isMember done
          obtain ⟨-, _, -, present⟩ := published other (by
            simp only [List.mem_append, List.mem_cons] at isMember ⊢
            tauto) done
          rw [show before.read destination = none from free] at present
          cases present
        have startFree : start.read destination = none := by
          cases present : start.read destination with
          | none => rfl
          | some content =>
              rw [show before.read destination = some content from kept content present] at free
              cases free
        refine ⟨fun saver isMember done => ?_, ?_⟩
        · rcases List.mem_append.mp isMember with inFront | inBack
          · exact absurd done (notDone saver (by simp [inFront]))
          · rcases List.mem_cons.mp inBack with rfl | inBack
            · exact ⟨startFree, content, written, placed⟩
            · exact absurd done (notDone saver (by simp [inBack]))
        · rw [List.pairwise_middle symmetric, List.pairwise_cons]
          exact ⟨fun other isMember both => notDone other isMember both.2, othersOnce⟩

theorem Settled.run {directory : Directory} {saves : Saves}
    (sound : Sound destination ⟨directory, []⟩) (exclusive : Exclusive ⟨directory, []⟩)
    (run : Relation.ReflTransGen (ExclusiveStep destination) ⟨directory, []⟩ saves) :
    Settled destination directory saves := by
  induction run with
  | refl => exact ⟨fun _ isMember => absurd isMember List.not_mem_nil, .nil⟩
  | tail run step ih =>
      exact ih.step (fun content present => sound.read_kept exclusive run present)
        (sound.exclusiveRun exclusive run) (exclusive.run run) step.1

end Saves

/-- What a caller wrote can be loaded. -/
theorem SaveCall.loads {call : SaveCall} {name : Text} {privateKey content : Bytes}
    {network : NetworkConfig} (made : NamedWallet.new name privateKey network = .ok call.wallet)
    (small : network.chainId.length + network.addressHrp.length ≤ 10000)
    (written : call.content = .ok content) :
    loadEncrypted (some content) call.password network = .ok call.wallet := by
  have encrypted := written
  simp only [SaveCall.content, NamedWallet.encrypted, deriveKey, passwordBytes, bind_eq_ok,
    raiseIf_eq_ok, exists_const, pure_eq_ok] at encrypted
  obtain ⟨_, -, _, ⟨_, ⟨nonempty, encodes⟩, -⟩, -⟩ := encrypted
  obtain ⟨file, _, _, _, saved, seals, spelled⟩ :=
    exists_sealed made small call.salt_length call.nonce_length nonempty encodes
  obtain rfl : content = file := by
    rw [SaveCall.content, saved] at written
    exact (Except.ok.inj written).symm
  have remade : NamedWallet.new call.wallet.name call.wallet.wallet.privateKeyBytes network =
      .ok call.wallet := by
    obtain ⟨nameEq, keyEq, -⟩ := NamedWallet.new_fields made
    rw [nameEq, keyEq, made]
  rw [loadEncrypted_eq spelled]
  exact seals.decrypts remade seals.derived

namespace Saves

/-- **Of those who do not overwrite, at most one succeeds**, and none if the place was taken. The
wallet of the one that succeeds is there for ever after, and it loads. -/
theorem exclusive {directory : Directory} {saves : Saves}
    (bound : ∀ name file, directory.names name = some file → file < directory.next)
    (run : Relation.ReflTransGen (ExclusiveStep destination) ⟨directory, []⟩ saves) :
    (∀ content, directory.read destination = some content →
      saves.directory.read destination = some content ∧
        ∀ saver ∈ saves.savers, ¬ saver.stage.published) ∧
    saves.savers.Pairwise (fun saver other => ¬ (saver.stage.published ∧ other.stage.published)) ∧
    ∀ saver ∈ saves.savers, saver.stage.published →
      ∀ later, Relation.ReflTransGen (ExclusiveStep destination) saves later →
      ∀ name privateKey network, NamedWallet.new name privateKey network = .ok saver.call.wallet →
        network.chainId.length + network.addressHrp.length ≤ 10000 →
        loadEncrypted (later.directory.read destination) saver.call.password network =
          .ok saver.call.wallet := by
  have startSound : Sound destination ⟨directory, []⟩ := .start bound
  have startExclusive := Exclusive.start directory
  have sound := startSound.exclusiveRun startExclusive run
  have exclusive := startExclusive.run run
  have settled := Settled.run startSound startExclusive run
  refine ⟨fun content present => ⟨startSound.read_kept startExclusive run present, ?_⟩,
    settled.once, ?_⟩
  · intro saver isMember done
    obtain ⟨free, -⟩ := settled.published saver isMember done
    rw [free] at present
    cases present
  · intro saver isMember done later laterRun name privateKey network made small
    obtain ⟨-, content, written, present⟩ := settled.published saver isMember done
    rw [sound.read_kept exclusive laterRun present]
    exact saver.call.loads made small written

omit [Platform] [Sealing] in
/-- Two callers race for the place, one of them succeeds, and its wallet loads. -/
theorem exclusive_savings : ∃ (call : SaveCall) (final : Directory),
    Relation.ReflTransGen (@ExclusiveStep savingsPlatform savingsSealing savingsPath)
      ⟨notesDirectory, []⟩
      ⟨final, [⟨call, .done (.ok ())⟩, ⟨call, .done (.error alreadyExists)⟩]⟩ ∧
    @loadEncrypted savingsPlatform savingsSealing (final.read savingsPath) (text "secret") testnet =
      .ok call.wallet := by
  obtain ⟨call, final, made, password, run⟩ := savings_saved
  obtain ⟨-, -, loads⟩ := @exclusive savingsPlatform savingsSealing savingsPath notesDirectory _
    notesDirectory_bound run
  have loaded := loads ⟨call, .done (.ok ())⟩ List.mem_cons_self trivial _ .refl _ _ _ made
    (by decide)
  rw [password] at loaded
  exact ⟨call, final, run, loaded⟩

end Saves

end OurCoin
