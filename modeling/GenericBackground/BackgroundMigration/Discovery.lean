import GenericBackground.BackgroundMigration.System
import GenericBackground.Lib.TextOrder
import Mathlib.Data.Char

/-!
# The discovery of migrations

`_schedule_module_migrations` goes through the version directories of a module, and through the
migration files of each, and schedules every migration that it finds. It sorts both as texts.

* The order of texts is not that of version numbers: `18.0.10.0.0` comes before `18.0.9.0.0`. Two
  versions compare as texts by the first component in which they differ, as a text
  (`text_lt_iff`).
* The path of a directory goes into a `glob` pattern as it is, so a module path with a wildcard
  character may find other directories than its own.
-/

namespace GenericBackgroundMigration

open GenericTaskQueue TextOrder

/-! ## The file system -/

/-- What the scan asks of the file system. A path that is no directory has an empty listing. -/
structure Disk where
  isDir : String → Bool
  listdir : String → List String
  /-- The directories that `glob` finds for a path with wildcards. -/
  globDirs : String → List String
  listdir_of_not_isDir : ∀ d, isDir d = false → listdir d = []
  listdir_nodup : ∀ d, (listdir d).Nodup
  no_slash : ∀ d, ∀ n ∈ listdir d, '/' ∉ n.toList
  globDirs_nodup : ∀ d, (globDirs d).Nodup

def sorted (l : List String) : List String := l.insertionSort fun a b => a.toList ≤ b.toList

def hasMagic (s : String) : Bool := s.toList.any fun c => c = '*' || c = '?' || c = '['

def isMigrationFile (n : String) : Bool :=
  "background-".toList.isPrefixOf n.toList && ".py".toList.isSuffixOf (n.toList.drop 11)

namespace Disk

variable (F : Disk)

/-- The directories that the pattern of a directory stands for. -/
def dirs (dirname : String) : List String :=
  if hasMagic dirname then F.globDirs dirname else [dirname]

/-- `glob.glob(os.path.join(dirname, 'background-*.py'))` -/
def glob (dirname : String) : List String :=
  (F.dirs dirname).flatMap fun d =>
    ((F.listdir d).filter isMigrationFile).map fun n => d ++ "/" ++ n

end Disk

def basename (p : String) : String :=
  String.ofList (p.toList.reverse.takeWhile (· ≠ '/')).reverse

/-- `filename[len('background-'):-len('.py')]` -/
def stripName (filename : String) : String :=
  String.ofList ((filename.toList.take (filename.toList.length - 3)).drop 11)

/-! ## The scan -/

def versionPath (path version : String) : String := path ++ "/migrations/" ++ version

/-- A file that the scan comes to. -/
structure FoundFile where
  version : String
  filepath : String
  deriving DecidableEq, Repr

def FoundFile.migrationName (x : FoundFile) : String := stripName (basename x.filepath)

/-- The version directories of a module, in the order of the scan. -/
def versionDirs (H : Host) (F : Disk) (path : String) : List String :=
  (sorted (F.listdir (path ++ "/migrations"))).filter fun v => versionRe H v

/-- The files of one version directory, in the order of the scan. -/
def versionFiles (F : Disk) (path version : String) : List FoundFile :=
  (sorted (F.glob (versionPath path version))).map fun filepath => ⟨version, filepath⟩

/-- The files with a valid name: what the log of the source calls the migrations found. -/
def found (H : Host) (F : Disk) (path : String) : List FoundFile :=
  ((versionDirs H F path).flatMap (versionFiles F path)).filter fun x => nameRe x.migrationName

def FoundFile.key (m : String) (x : FoundFile) : MigrationKey := ⟨m, x.version, x.migrationName⟩

/-- The queue and the records of all migrations. -/
structure Migrations where
  tasks : Table
  records : MigrationKey → Option Migration

/-- `_schedule_migration` for one of them. -/
def Migrations.schedule (E : Env) (uid : UserId) (k : MigrationKey) (D : Migrations) : Migrations :=
  let D' := scheduleMigration E uid k ⟨D.tasks, D.records k⟩
  ⟨D'.tasks, Function.update D.records k D'.others⟩

/-- The migration is not done yet, so that it is enqueued. -/
def Migrations.pending (D : Migrations) (k : MigrationKey) : Bool :=
  (prepared k (D.records k)).isSome

/-- The loop over the migrations found, with the calls of `_enqueue_task`. -/
def scheduleAll (E : Env) (uid : UserId) (m : String) :
    List FoundFile → Migrations → Migrations × List MigrationKey
  | [], D => (D, [])
  | x :: l, D =>
    let rest := scheduleAll E uid m l (D.schedule E uid (x.key m))
    (rest.1, if D.pending (x.key m) then x.key m :: rest.2 else rest.2)

def scheduleModuleMigrations (H : Host) (F : Disk) (E : Env) (uid : UserId) (m : String)
    (D : Migrations) : Migrations × List MigrationKey :=
  match (H.getModulePath m).filter (· ≠ "") with
  | none => (D, [])
  | some path =>
    if F.isDir (path ++ "/migrations") then scheduleAll E uid m (found H F path) D else (D, [])

/-! ## In version order -/

def components (v : String) : List (List Char) := v.toList.splitOn '.'

/-- Five components of digits. -/
def ValidVersion (H : Host) (v : String) : Prop :=
  (components v).length = 5 ∧ ∀ n ∈ components v, n ≠ [] ∧ ∀ c ∈ n, H.isDigit c = true

instance (H : Host) (v : String) : Decidable (ValidVersion H v) :=
  -- only the characters of the version are looked at
  have (n : List Char) : Decidable (n ≠ [] ∧ ∀ c ∈ n, H.isDigit c = true) :=
    @instDecidableAnd _ _ inferInstance (List.decidableBAll _ n)
  inferInstanceAs (Decidable (_ ∧ _))

def versionNumbers (digit : Char → ℕ) (v : String) : List ℕ := (components v).map (value 10 digit)

/-- A file with a valid name in the directory `d`, whose migration, under the version `v`, is not
done yet. -/
structure PendingFile (F : Disk) (m : String) (D : Migrations) (d v n : String) : Prop where
  mem : n ∈ F.listdir d
  pattern : isMigrationFile n = true
  name : nameRe (stripName n) = true
  pending : D.pending ⟨m, v, stripName n⟩ = true

/-- The calls of `_enqueue_task` are in version order, one for each migration file that is not done,
and the files that their parameters name (`MigrationKey.file`, from which `execute` takes the path)
are the files found. -/
structure InVersionOrder (H : Host) (F : Disk) (digit : Char → ℕ) (m path : String)
    (D : Migrations) (calls : List MigrationKey) : Prop where
  order : calls.Pairwise fun a b => ValidVersion H a.version → ValidVersion H b.version →
    ¬ versionNumbers digit b.version < versionNumbers digit a.version
  once : ∀ v ∈ F.listdir (path ++ "/migrations"), versionRe H v = true →
    ∀ n, PendingFile F m D (versionPath path v) v n → calls.count ⟨m, v, stripName n⟩ = 1
  named : calls.map (·.file path) =
    ((found H F path).filter fun x => D.pending (x.key m)).map (·.filepath)

/-- Of two versions with files that are not done, the first component in which they differ as texts
decides as their numbers do; and the paths of the version directories, read as patterns, stand for
these directories as far as there are such files. -/
structure TextualOrder (H : Host) (F : Disk) (digit : Char → ℕ) (m path : String)
    (D : Migrations) : Prop where
  order : ∀ v ∈ F.listdir (path ++ "/migrations"), ∀ w ∈ F.listdir (path ++ "/migrations"),
    ValidVersion H v → ValidVersion H w → (∃ n, PendingFile F m D (versionPath path v) v n) →
    (∃ n, PendingFile F m D (versionPath path w) w n) →
    versionNumbers digit v < versionNumbers digit w → components v < components w
  own : ∀ v ∈ F.listdir (path ++ "/migrations"), versionRe H v = true →
    (∃ n, PendingFile F m D (versionPath path v) v n) →
    versionPath path v ∈ F.dirs (versionPath path v)
  only : ∀ v ∈ F.listdir (path ++ "/migrations"), versionRe H v = true →
    ∀ d ∈ F.dirs (versionPath path v), (∃ n, PendingFile F m D d v n) → d = versionPath path v

/-! ## What is enqueued -/

variable {H : Host} {F : Disk} {E : Env} {uid : UserId} {m path : String} {D : Migrations}

theorem schedule_records (k : MigrationKey) : (D.schedule E uid k).records =
    Function.update D.records k (scheduleMigration E uid k ⟨D.tasks, D.records k⟩).others := rfl

theorem scheduleAll_cons (x : FoundFile) (l : List FoundFile) :
    (scheduleAll E uid m (x :: l) D).2 =
      if D.pending (x.key m) then
        x.key m :: (scheduleAll E uid m l (D.schedule E uid (x.key m))).2
      else (scheduleAll E uid m l (D.schedule E uid (x.key m))).2 := rfl

theorem scheduleMigration_pending {k : MigrationKey} {D : MigrationDb} {r : Migration}
    (h : prepared k D.others = some r) :
    ∃ r', (scheduleMigration E uid k D).others = some r' ∧ r'.state = .pending := by
  have hr : r.state = .pending := by
    unfold prepared at h
    split at h
    · split at h
      · cases h
      · obtain rfl := Option.some.inj h
        rfl
    · obtain rfl := Option.some.inj h
      rfl
  unfold scheduleMigration
  rw [h]
  show ∃ r', ((enqueueTask E uid k ⟨D.tasks, some r⟩).getD ⟨D.tasks, some r⟩).others = some r' ∧ _
  cases he : enqueueTask E uid k ⟨D.tasks, some r⟩ with
  | none => exact ⟨r, rfl, hr⟩
  | some D' =>
    unfold enqueueTask at he
    split at he
    · obtain rfl := Option.some.inj he
      exact ⟨_, rfl, hr⟩
    · obtain rfl := Option.some.inj he
      exact ⟨_, rfl, hr⟩
    · cases he

/-- Scheduling one migration leaves every migration as done, or not done, as it was. -/
theorem pending_schedule (k k' : MigrationKey) :
    (D.schedule E uid k).pending k' = D.pending k' := by
  unfold Migrations.pending
  rw [schedule_records]
  by_cases hk : k' = k
  · subst hk
    rw [Function.update_self]
    cases hp : prepared k' (D.records k') with
    | none =>
      have hsame : scheduleMigration E uid k' ⟨D.tasks, D.records k'⟩ =
          ⟨D.tasks, D.records k'⟩ := by
        unfold scheduleMigration
        rw [hp]
      rw [hsame, hp]
    | some r =>
      obtain ⟨r', hr', hs⟩ := @scheduleMigration_pending E uid k' ⟨D.tasks, D.records k'⟩ r hp
      rw [hr']
      simp [prepared, hs]
  · rw [Function.update_of_ne hk]

/-- The calls of `_enqueue_task`, in order: those for the files whose migration is not done. -/
theorem scheduleAll_calls (l : List FoundFile) (D : Migrations) :
    (scheduleAll E uid m l D).2 = (l.filter fun x => D.pending (x.key m)).map (·.key m) := by
  induction l generalizing D with
  | nil => rfl
  | cons x l ih =>
    rw [scheduleAll_cons, ih]
    simp only [pending_schedule]
    by_cases hx : D.pending (x.key m) = true
    · simp [hx]
    · simp [hx]

/-! ## Paths and names -/

theorem stripName_eq {n : String} (h : isMigrationFile n = true) :
    n = "background-" ++ stripName n ++ ".py" := by
  unfold isMigrationFile at h
  obtain ⟨hpre, hsuf⟩ := Bool.and_eq_true_iff.1 h
  obtain ⟨rest, hrest⟩ := List.isPrefixOf_iff_prefix.1 hpre
  obtain ⟨mid, hmid⟩ := List.isSuffixOf_iff_suffix.1 hsuf
  have hlen : "background-".toList.length = 11 := by decide
  rw [← hrest, List.drop_left' hlen] at hmid
  have hn : n.toList = "background-".toList ++ (mid ++ ".py".toList) := by rw [hmid, hrest]
  have hstrip : stripName n = String.ofList mid := by
    unfold stripName
    congr 1
    rw [hn, ← List.append_assoc, List.take_left' (by simp), List.drop_left' hlen]
  have hmid : (String.ofList mid).toList = mid := String.toList_ofList
  apply String.ext
  rw [hstrip, hn, String.toList_append, String.toList_append, hmid, List.append_assoc]

theorem file_stripName {v n : String} (h : isMigrationFile n = true) :
    MigrationKey.file ⟨m, v, stripName n⟩ path = versionPath path v ++ "/" ++ n := by
  conv_rhs => rw [stripName_eq h]
  apply String.ext
  simp [MigrationKey.file, versionPath, String.toList_append]

theorem basename_join {d n : String} (h : '/' ∉ n.toList) : basename (d ++ "/" ++ n) = n := by
  unfold basename
  have hl : (d ++ "/" ++ n).toList.reverse = n.toList.reverse ++ '/' :: d.toList.reverse := by
    simp [String.toList_append]
  rw [hl, List.takeWhile_append_of_pos (fun c hc => ?_), List.takeWhile_cons_of_neg (by simp),
    List.append_nil, List.reverse_reverse, String.ofList_toList]
  have : c ≠ '/' := by
    rintro rfl
    exact h (List.mem_reverse.1 hc)
  simpa using this

theorem join_cancel {d d' n : String} (h : d ++ "/" ++ n = d' ++ "/" ++ n) : d = d' := by
  have h := congrArg String.toList h
  simp only [String.toList_append] at h
  exact String.ext (List.append_cancel_right (List.append_cancel_right h))

theorem mem_glob {dirname filepath : String} : filepath ∈ F.glob dirname ↔
    ∃ d ∈ F.dirs dirname, ∃ n ∈ F.listdir d, isMigrationFile n = true ∧
      filepath = d ++ "/" ++ n := by
  unfold Disk.glob
  simp only [List.mem_flatMap, List.mem_map, List.mem_filter]
  constructor
  · rintro ⟨d, hd, n, ⟨hn, hpat⟩, rfl⟩
    exact ⟨d, hd, n, hn, hpat, rfl⟩
  · rintro ⟨d, hd, n, hn, hpat, rfl⟩
    exact ⟨d, hd, n, ⟨hn, hpat⟩, rfl⟩

theorem nodup_dirs (dirname : String) : (F.dirs dirname).Nodup := by
  unfold Disk.dirs
  split
  · exact F.globDirs_nodup dirname
  · exact List.nodup_singleton dirname

theorem nodup_glob (dirname : String) : (F.glob dirname).Nodup := by
  unfold Disk.glob
  refine List.nodup_flatMap.2 ⟨fun d _ => ?_, ?_⟩
  · refine ((F.listdir_nodup d).filter _).map_on fun n hn n' hn' h => ?_
    rw [← basename_join (d := d) (F.no_slash d n (List.mem_of_mem_filter hn)), h,
      basename_join (F.no_slash d n' (List.mem_of_mem_filter hn'))]
  · refine (nodup_dirs dirname).imp_of_mem fun {d d'} _ _ hne => ?_
    intro fp h h'
    obtain ⟨n, hn, rfl⟩ := List.mem_map.1 h
    obtain ⟨n', hn', h⟩ := List.mem_map.1 h'
    have hname : n' = n := by
      rw [← basename_join (d := d') (F.no_slash d' n' (List.mem_of_mem_filter hn')), h,
        basename_join (F.no_slash d n (List.mem_of_mem_filter hn))]
    subst hname
    exact hne (join_cancel h).symm

/-! ## Sorting -/

theorem mem_sorted {l : List String} {a : String} : a ∈ sorted l ↔ a ∈ l := List.mem_insertionSort _

theorem nodup_sorted {l : List String} (h : l.Nodup) : (sorted l).Nodup :=
  (List.perm_insertionSort _ l).nodup_iff.2 h

theorem sorted_pairwise {l : List String} (h : l.Nodup) :
    (sorted l).Pairwise fun a b => a.toList < b.toList := by
  have : Std.Total fun a b : String => a.toList ≤ b.toList := ⟨fun a b => le_total _ _⟩
  have : IsTrans String fun a b => a.toList ≤ b.toList := ⟨fun a b c => le_trans⟩
  have hle := List.pairwise_insertionSort (fun a b : String => a.toList ≤ b.toList) l
  refine (hle.and (nodup_sorted h)).imp ?_
  rintro a b ⟨hab, hne⟩
  exact lt_of_le_of_ne hab fun he => hne (String.ext he)

/-- Two versions compare as texts by the first component in which they differ, as a text. -/
theorem text_lt_iff {v w : String} (hdot : ∀ c, H.isDigit c = true → '.' < c)
    (hv : ValidVersion H v) (hw : ValidVersion H w) :
    v.toList < w.toList ↔ components v < components w := by
  have join : ∀ u : String, ['.'].intercalate (components u) = u.toList := fun u =>
    List.intercalate_splitOn '.'
  rw [← join v, ← join w]
  exact intercalate_lt_iff (hv.1.trans hw.1.symm) (fun a ha c hc => hdot c ((hv.2 a ha).2 c hc))
    fun a ha c hc => hdot c ((hw.2 a ha).2 c hc)

/-! ## The files found -/

/-- The calls of `_enqueue_task` for one version. -/
def versionCalls (F : Disk) (m path : String) (D : Migrations) (v : String) : List MigrationKey :=
  ((versionFiles F path v).filter fun x => nameRe x.migrationName && D.pending (x.key m)).map
    (·.key m)

theorem mem_versionDirs {v : String} :
    v ∈ versionDirs H F path ↔ v ∈ F.listdir (path ++ "/migrations") ∧ versionRe H v = true := by
  unfold versionDirs
  rw [List.mem_filter, mem_sorted]

theorem versionDirs_pairwise :
    (versionDirs H F path).Pairwise fun v w => v.toList < w.toList :=
  (sorted_pairwise (F.listdir_nodup _)).filter _

theorem mem_pendingFiles {v : String} {x : FoundFile} :
    x ∈ (versionFiles F path v).filter (fun x => nameRe x.migrationName && D.pending (x.key m)) ↔
      ∃ d ∈ F.dirs (versionPath path v), ∃ n, PendingFile F m D d v n ∧
        x = ⟨v, d ++ "/" ++ n⟩ := by
  unfold versionFiles
  simp only [List.mem_filter, List.mem_map, mem_sorted, mem_glob, Bool.and_eq_true]
  constructor
  · rintro ⟨⟨fp, ⟨d, hd, n, hn, hpat, rfl⟩, rfl⟩, hname, hpend⟩
    have hb := basename_join (d := d) (F.no_slash d n hn)
    simp only [FoundFile.migrationName, FoundFile.key, hb] at hname hpend
    exact ⟨d, hd, n, ⟨hn, hpat, hname, hpend⟩, rfl⟩
  · rintro ⟨d, hd, n, ⟨hn, hpat, hname, hpend⟩, rfl⟩
    have hb := basename_join (d := d) (F.no_slash d n hn)
    refine ⟨⟨_, ⟨d, hd, n, hn, hpat, rfl⟩, rfl⟩, ?_, ?_⟩
    · simpa only [FoundFile.migrationName, hb] using hname
    · simpa only [FoundFile.key, FoundFile.migrationName, hb] using hpend

theorem mem_versionCalls {v : String} {k : MigrationKey} :
    k ∈ versionCalls F m path D v ↔ ∃ d ∈ F.dirs (versionPath path v), ∃ n,
      PendingFile F m D d v n ∧ k = ⟨m, v, stripName n⟩ := by
  unfold versionCalls
  rw [List.mem_map]
  have key : ∀ {d n}, PendingFile F m D d v n →
      FoundFile.key m ⟨v, d ++ "/" ++ n⟩ = ⟨m, v, stripName n⟩ := by
    intro d n hp
    simp only [FoundFile.key, FoundFile.migrationName, basename_join (F.no_slash d n hp.mem)]
  constructor
  · rintro ⟨x, hx, rfl⟩
    obtain ⟨d, hd, n, hp, rfl⟩ := mem_pendingFiles.1 hx
    exact ⟨d, hd, n, hp, key hp⟩
  · rintro ⟨d, hd, n, hp, rfl⟩
    exact ⟨_, mem_pendingFiles.2 ⟨d, hd, n, hp, rfl⟩, key hp⟩

theorem pendingFiles_eq : (found H F path).filter (fun x => D.pending (x.key m)) =
    (versionDirs H F path).flatMap fun v =>
      (versionFiles F path v).filter fun x => nameRe x.migrationName && D.pending (x.key m) := by
  unfold found
  rw [List.filter_filter, List.filter_flatMap]
  simp only [Bool.and_comm]

theorem calls_eq (hpath : (H.getModulePath m).filter (· ≠ "") = some path) :
    (scheduleModuleMigrations H F E uid m D).2 =
      ((found H F path).filter fun x => D.pending (x.key m)).map (·.key m) := by
  unfold scheduleModuleMigrations
  rw [hpath]
  show (if F.isDir (path ++ "/migrations") then scheduleAll E uid m (found H F path) D
    else (D, [])).2 = _
  split
  · exact scheduleAll_calls _ _
  · next hdir =>
    have hnone : found H F path = [] := by
      unfold found versionDirs
      rw [F.listdir_of_not_isDir _ (Bool.eq_false_iff.2 hdir)]
      rfl
    rw [hnone]
    rfl

theorem calls_eq_flatMap (hpath : (H.getModulePath m).filter (· ≠ "") = some path) :
    (scheduleModuleMigrations H F E uid m D).2 =
      (versionDirs H F path).flatMap (versionCalls F m path D) := by
  rw [calls_eq hpath, pendingFiles_eq, List.map_flatMap]
  rfl

/-! ## The result -/

variable {digit : Char → ℕ}

theorem mem_calls (hpath : (H.getModulePath m).filter (· ≠ "") = some path) {k : MigrationKey} :
    k ∈ (scheduleModuleMigrations H F E uid m D).2 ↔
      ∃ v, v ∈ F.listdir (path ++ "/migrations") ∧ versionRe H v = true ∧
        ∃ d ∈ F.dirs (versionPath path v), ∃ n, PendingFile F m D d v n ∧
          k = ⟨m, v, stripName n⟩ := by
  rw [calls_eq_flatMap hpath, List.mem_flatMap]
  simp only [mem_versionDirs, mem_versionCalls]
  constructor
  · rintro ⟨v, ⟨hv, hre⟩, h⟩
    exact ⟨v, hv, hre, h⟩
  · rintro ⟨v, hv, hre, h⟩
    exact ⟨v, ⟨hv, hre⟩, h⟩

theorem named_iff (hpath : (H.getModulePath m).filter (· ≠ "") = some path) :
    (scheduleModuleMigrations H F E uid m D).2.map (·.file path) =
        ((found H F path).filter fun x => D.pending (x.key m)).map (·.filepath) ↔
      ∀ v ∈ F.listdir (path ++ "/migrations"), versionRe H v = true →
        ∀ d ∈ F.dirs (versionPath path v), (∃ n, PendingFile F m D d v n) →
          d = versionPath path v := by
  have file : ∀ {d v n}, PendingFile F m D d v n →
      MigrationKey.file (FoundFile.key m ⟨v, d ++ "/" ++ n⟩) path =
        versionPath path v ++ "/" ++ n := by
    intro d v n hp
    rw [← file_stripName (m := m) hp.pattern]
    simp only [FoundFile.key, FoundFile.migrationName, basename_join (F.no_slash d n hp.mem)]
  rw [calls_eq hpath, List.map_map, pendingFiles_eq, List.map_inj_left]
  simp only [List.mem_flatMap, mem_versionDirs, mem_pendingFiles, Function.comp_apply]
  constructor
  · rintro h v hv hre d hd ⟨n, hp⟩
    have := h _ ⟨v, ⟨hv, hre⟩, d, hd, n, hp, rfl⟩
    rw [file hp] at this
    exact (join_cancel this).symm
  · rintro h x ⟨v, ⟨hv, hre⟩, d, hd, n, hp, rfl⟩
    rw [file hp, h v hv hre d hd ⟨n, hp⟩]

theorem nodup_calls (hpath : (H.getModulePath m).filter (· ≠ "") = some path)
    (honly : ∀ v ∈ F.listdir (path ++ "/migrations"), versionRe H v = true →
      ∀ d ∈ F.dirs (versionPath path v), (∃ n, PendingFile F m D d v n) →
        d = versionPath path v) : (scheduleModuleMigrations H F E uid m D).2.Nodup := by
  rw [calls_eq_flatMap hpath, List.nodup_flatMap]
  refine ⟨fun v hv => ?_, ?_⟩
  · obtain ⟨hv, hre⟩ := mem_versionDirs.1 hv
    unfold versionCalls
    refine List.Nodup.map_on (fun x hx y hy hxy => ?_) (List.Nodup.filter _ ?_)
    · obtain ⟨d, hd, n, hp, rfl⟩ := mem_pendingFiles.1 hx
      obtain ⟨d', hd', n', hp', rfl⟩ := mem_pendingFiles.1 hy
      have hname : stripName n = stripName n' := by
        simpa only [FoundFile.key, FoundFile.migrationName, basename_join (F.no_slash d n hp.mem),
          basename_join (F.no_slash d' n' hp'.mem)] using congrArg MigrationKey.name hxy
      rw [honly v hv hre d hd ⟨n, hp⟩, honly v hv hre d' hd' ⟨n', hp'⟩, stripName_eq hp.pattern,
        hname, ← stripName_eq hp'.pattern]
    · exact (nodup_sorted (nodup_glob _)).map fun a b h => congrArg FoundFile.filepath h
  · refine versionDirs_pairwise.imp ?_
    intro v w hvw k hk hk'
    obtain ⟨d, -, n, -, rfl⟩ := mem_versionCalls.1 hk
    obtain ⟨d', -, n', -, hk'⟩ := mem_versionCalls.1 hk'
    obtain rfl : v = w := congrArg MigrationKey.version hk'
    exact lt_irrefl _ hvw

/-- The calls are in version order exactly if the texts of the versions that they are for are. -/
theorem order_iff (hpath : (H.getModulePath m).filter (· ≠ "") = some path) :
    ((scheduleModuleMigrations H F E uid m D).2.Pairwise fun a b =>
        ValidVersion H a.version → ValidVersion H b.version →
          ¬ versionNumbers digit b.version < versionNumbers digit a.version) ↔
      ∀ v ∈ versionDirs H F path, ∀ w ∈ versionDirs H F path, v.toList < w.toList →
        versionCalls F m path D v ≠ [] → versionCalls F m path D w ≠ [] → ValidVersion H v →
          ValidVersion H w → ¬ versionNumbers digit w < versionNumbers digit v := by
  have version : ∀ {v k}, k ∈ versionCalls F m path D v → k.version = v := by
    intro v k hk
    obtain ⟨d, -, n, -, rfl⟩ := mem_versionCalls.1 hk
    rfl
  rw [calls_eq_flatMap hpath, pairwise_flatMap_iff versionDirs_pairwise]
  constructor
  · rintro ⟨-, h⟩ v hv w hw hvw hne hne' hval hval'
    obtain ⟨a, ha⟩ := List.exists_mem_of_ne_nil _ hne
    obtain ⟨b, hb⟩ := List.exists_mem_of_ne_nil _ hne'
    have := h v hv w hw hvw a ha b hb
    rw [version ha, version hb] at this
    exact this hval hval'
  · refine fun h => ⟨fun v _ => ?_, fun v hv w hw hvw a ha b hb => ?_⟩
    · -- the files of one version
      refine List.pairwise_of_forall_mem_list fun a ha b hb _ _ => ?_
      rw [version ha, version hb]
      exact lt_irrefl _
    · rw [version ha, version hb]
      exact h v hv w hw hvw (List.ne_nil_of_mem ha) (List.ne_nil_of_mem hb)

/-- Where the patterns of the version directories stand for these directories, the versions that
migrations are enqueued for are those with files that are not done. -/
theorem versionCalls_ne_nil {v : String} (hv : v ∈ versionDirs H F path)
    (hown : ∀ v ∈ F.listdir (path ++ "/migrations"), versionRe H v = true →
      (∃ n, PendingFile F m D (versionPath path v) v n) →
        versionPath path v ∈ F.dirs (versionPath path v))
    (honly : ∀ v ∈ F.listdir (path ++ "/migrations"), versionRe H v = true →
      ∀ d ∈ F.dirs (versionPath path v), (∃ n, PendingFile F m D d v n) →
        d = versionPath path v) :
    versionCalls F m path D v ≠ [] ↔ ∃ n, PendingFile F m D (versionPath path v) v n := by
  obtain ⟨hv, hre⟩ := mem_versionDirs.1 hv
  constructor
  · intro h
    obtain ⟨k, hk⟩ := List.exists_mem_of_ne_nil _ h
    obtain ⟨d, hd, n, hp, -⟩ := mem_versionCalls.1 hk
    obtain rfl := honly v hv hre d hd ⟨n, hp⟩
    exact ⟨n, hp⟩
  · rintro ⟨n, hp⟩
    exact List.ne_nil_of_mem (mem_versionCalls.2 ⟨_, hown v hv hre ⟨n, hp⟩, n, hp, rfl⟩)

theorem versionRe_of_valid {v : String} (h : ValidVersion H v) : versionRe H v = true := by
  unfold versionRe matchesLine
  refine Bool.or_eq_true_iff.2 (.inl (Bool.and_eq_true_iff.2 ⟨decide_eq_true h.1, ?_⟩))
  refine List.all_eq_true.2 fun n hn => Bool.and_eq_true_iff.2 ⟨decide_eq_true (h.2 n hn).1, ?_⟩
  exact List.all_eq_true.2 (h.2 n hn).2

/-- **Version order.** The migrations that are not done are enqueued in the order of their versions,
each file once and under its own name, exactly if the first components in which two of the versions
differ as texts compare as the versions do, and no wildcard in the path of the module leads to the
files of other directories, or away from its own. -/
theorem in_version_order_iff (hdot : ∀ c, H.isDigit c = true → '.' < c)
    (hpath : (H.getModulePath m).filter (· ≠ "") = some path) :
    InVersionOrder H F digit m path D (scheduleModuleMigrations H F E uid m D).2 ↔
      TextualOrder H F digit m path D := by
  constructor
  · intro h
    have honly := (named_iff hpath).1 h.named
    have hown : ∀ v ∈ F.listdir (path ++ "/migrations"), versionRe H v = true →
        (∃ n, PendingFile F m D (versionPath path v) v n) →
          versionPath path v ∈ F.dirs (versionPath path v) := by
      rintro v hv hre ⟨n, hp⟩
      have hcount := h.once v hv hre n hp
      have hmem : ⟨m, v, stripName n⟩ ∈ (scheduleModuleMigrations H F E uid m D).2 :=
        List.count_pos_iff.1 (by omega)
      obtain ⟨v', hv', hre', d, hd, n', hp', hk⟩ := (mem_calls hpath).1 hmem
      obtain rfl : v = v' := congrArg MigrationKey.version hk
      rw [honly v hv hre d hd ⟨n', hp'⟩] at hd
      exact hd
    refine ⟨fun v hv w hw hval hval' hne hne' hlt => ?_, hown, honly⟩
    rw [← text_lt_iff hdot hval hval']
    have hv := mem_versionDirs.2 ⟨hv, versionRe_of_valid hval⟩
    have hw := mem_versionDirs.2 ⟨hw, versionRe_of_valid hval'⟩
    -- otherwise `w` comes first
    by_contra hnot
    have hwv : w.toList < v.toList := by
      refine lt_of_le_of_ne (not_lt.1 hnot) fun he => ?_
      rw [String.ext he] at hlt
      exact lt_irrefl _ hlt
    exact (order_iff hpath).1 h.order w hw v hv hwv
      ((versionCalls_ne_nil hw hown honly).2 hne') ((versionCalls_ne_nil hv hown honly).2 hne)
      hval' hval hlt
  · intro h
    refine ⟨(order_iff hpath).2 ?_, fun v hv hre n hp => ?_, (named_iff hpath).2 h.only⟩
    · intro v hv w hw hvw hne hne' hval hval' hlt
      have hne := (versionCalls_ne_nil hv h.own h.only).1 hne
      have hne' := (versionCalls_ne_nil hw h.own h.only).1 hne'
      have := h.order w (mem_versionDirs.1 hw).1 v (mem_versionDirs.1 hv).1 hval' hval hne' hne hlt
      exact lt_asymm hvw ((text_lt_iff hdot hval' hval).2 this)
    · have hmem : ⟨m, v, stripName n⟩ ∈ (scheduleModuleMigrations H F E uid m D).2 :=
        (mem_calls hpath).2 ⟨v, hv, hre, _, h.own v hv hre ⟨n, hp⟩, n, hp, rfl⟩
      exact List.count_eq_one_of_mem (nodup_calls hpath h.only) hmem

/-- Without wildcards in its path, a module whose versions have components of the same lengths,
place by place, is in order. -/
theorem textualOrder_of_widths (hmagic : ∀ v ∈ F.listdir (path ++ "/migrations"),
      hasMagic (versionPath path v) = false)
    (hdigits : Digits (fun c => H.isDigit c = true) 10 digit)
    (hwidth : ∀ v ∈ F.listdir (path ++ "/migrations"), ∀ w ∈ F.listdir (path ++ "/migrations"),
      ValidVersion H v → ValidVersion H w →
        (components v).map List.length = (components w).map List.length) :
    TextualOrder H F digit m path D := by
  have dirs : ∀ v ∈ F.listdir (path ++ "/migrations"),
      F.dirs (versionPath path v) = [versionPath path v] := by
    intro v hv
    unfold Disk.dirs
    rw [hmagic v hv]
    rfl
  refine ⟨fun v hv w hw hval hval' _ _ hlt => ?_, fun v hv _ _ => ?_, fun v hv _ d hd _ => ?_⟩
  · exact (hdigits.map_value_lt_iff (hwidth v hv w hw hval hval') (fun n hn => (hval.2 n hn).2)
      fun n hn => (hval'.2 n hn).2).1 hlt
  · rw [dirs v hv]
    exact List.mem_singleton_self _
  · rw [dirs v hv] at hd
    exact List.mem_singleton.1 hd

/-! ## A module with two versions -/

/-- The module `sales` has the file `background-recompute-totals.py` in each of its versions. -/
def salesListing (versions : List String) (d : String) : List String :=
  if d = "/addons/sales/migrations" then versions
  else if d ∈ versions.map (versionPath "/addons/sales") then ["background-recompute-totals.py"]
  else []

def salesDisk (versions : List String) (hnodup : versions.Nodup)
    (hslash : ∀ v ∈ versions, '/' ∉ v.toList) : Disk where
  isDir d := salesListing versions d ≠ []
  listdir := salesListing versions
  globDirs _ := []
  listdir_of_not_isDir d h := by simpa using h
  listdir_nodup d := by
    unfold salesListing
    split_ifs
    · exact hnodup
    · exact List.nodup_singleton _
    · exact List.nodup_nil
  no_slash d n hn := by
    unfold salesListing at hn
    split_ifs at hn
    · exact hslash n hn
    · obtain rfl := List.mem_singleton.1 hn
      decide
    · cases hn
  globDirs_nodup _ := List.nodup_nil

def twoVersions : Disk :=
  salesDisk ["18.0.2.0.0", "18.0.1.0.0"] (by decide +kernel) (by decide +kernel)

/-- Two versions, one of them with a component of two digits. -/
def tenthVersion : Disk :=
  salesDisk ["18.0.9.0.0", "18.0.10.0.0"] (by decide +kernel) (by decide +kernel)

def digitValue (c : Char) : ℕ := c.toNat - 48

theorem decimal_digits : Digits (fun c => salesHost.isDigit c = true) 10 digitValue where
  one_lt := by decide
  lt_base c h := by
    have : 48 ≤ c.toNat ∧ c.toNat ≤ 57 := Char.isDigit_iff_toNat.1 h
    unfold digitValue
    omega
  lt_iff c d hc hd := by
    have : 48 ≤ c.toNat ∧ c.toNat ≤ 57 := Char.isDigit_iff_toNat.1 hc
    have : 48 ≤ d.toNat ∧ d.toNat ≤ 57 := Char.isDigit_iff_toNat.1 hd
    have key : c < d ↔ c.toNat < d.toNat := Iff.rfl
    rw [key]
    unfold digitValue
    omega

def noMigrations : Migrations := ⟨⟨[], List.nodup_nil⟩, fun _ => none⟩

theorem twoVersions_in_order : InVersionOrder salesHost twoVersions digitValue "sales"
    "/addons/sales" noMigrations
      (scheduleModuleMigrations salesHost twoVersions (salesEnv 100) 1 "sales" noMigrations).2 := by
  refine (in_version_order_iff (fun c h => ?_) rfl).2 (textualOrder_of_widths ?_ decimal_digits ?_)
  · show '.'.toNat < c.toNat
    exact Nat.lt_of_lt_of_le (by decide) (Char.isDigit_iff_toNat.1 h).1
  · decide +kernel
  · decide +kernel

/-- The tenth version comes before the ninth. -/
theorem tenthVersion_first : ¬ InVersionOrder salesHost tenthVersion digitValue "sales"
    "/addons/sales" noMigrations
    (scheduleModuleMigrations salesHost tenthVersion (salesEnv 100) 1 "sales" noMigrations).2 := by
  intro h
  have hcalls : (scheduleModuleMigrations salesHost tenthVersion (salesEnv 100) 1 "sales"
      noMigrations).2 = [⟨"sales", "18.0.10.0.0", "recompute-totals"⟩,
        ⟨"sales", "18.0.9.0.0", "recompute-totals"⟩] := by decide +kernel
  have horder := h.order
  rw [hcalls] at horder
  exact (List.pairwise_cons.1 horder).1 _ (List.mem_singleton_self _) (by decide +kernel)
    (by decide +kernel) (by decide +kernel)

end GenericBackgroundMigration
