import Malkuth.DbLabel
import Malkuth.Text

/-! The dumps of one round: `run_forever` dumps the databases of `discover_uris` one after the
other and rotates then. A file name shows the label of its URL and the second; the retention
window is that of the label. -/
namespace Malkuth.DbBackup

/-- `std::env::vars()` is a list of names and values. -/
def discoverUris (explicit : List (List Char)) (vars : List (List Char × List Char)) : List (List Char) :=
  let found := explicit.filter (fun u => Text.trimList u ≠ []) ++
    (vars.filter fun (k,_) => k = "DATABASE_URL".toList ∨ "_DATABASE_URL".toList.isSuffixOf k).map Prod.snd
  found.dedup.insertionSort (· ≤ ·)

def runBackup (host : List Char) (encrypted : Bool) (uri : List Char) (stamp : Stamp) : Dump :=
  ⟨sanitizeLabel host,dbNameFromUri uri,stamp,encrypted⟩

def Dump.isOf (d : Dump) (host uri : List Char) : Prop := d.host = sanitizeLabel host ∧ d.db = dbNameFromUri uri

instance (d : Dump) (host uri : List Char) : Decidable (d.isOf host uri) := inferInstanceAs (Decidable (_ ∧ _))

/-- The rotation treats the dumps of `u` as if there were none of `v`. -/
def OwnWindow (host u v : List Char) : Prop :=
  ∀ (world : World), (∀ name, world.removes name = true) → ∀ (retain : Nat) (dir alone : Directory),
    alone.dumps = dir.dumps.filter (fun d => ¬ d.isOf host v) → ∀ d ∈ dir.dumps, d.isOf host u →
      (d.name ∈ rotate world retain dir.entries ↔ d.name ∈ rotate world retain alone.entries)

/-- Two URLs do not share dumps: no two dumps for them have one path, whenever they are made, and
neither takes room in the window of the other. -/
def Apart (host : List Char) (encrypted : Bool) (u v : List Char) : Prop :=
  (∀ s t, (runBackup host encrypted u s).name ≠ (runBackup host encrypted v t).name) ∧
    OwnWindow host u v ∧ OwnWindow host v u

/-- The part of a URL that its label is made of: what follows the last slash, up to a question
mark, or, if that is empty, what follows the last `@`, up to a colon. -/
def namedPart (uri : List Char) : List Char :=
  let name := beforeFirst '?' (if '/' ∈ uri then afterLast '/' uri else [])
  if name = [] then beforeFirst ':' (afterLast '@' (stripScheme uri)) else name

theorem dbNameFromUri_eq (uri : List Char) : dbNameFromUri uri = sanitizeLabel (namedPart uri) := by
  unfold dbNameFromUri namedPart
  exact (apply_ite sanitizeLabel ..).symm

theorem stale_perm (retain : Nat) {files files' : List Name} (perm : files.Perm files') :
    stale retain files = stale retain files' := by
  have same : files.insertionSort (· ≤ ·) = files'.insertionSort (· ≤ ·) :=
    (((List.perm_insertionSort (· ≤ ·) files).trans perm).trans (List.perm_insertionSort (· ≤ ·) files').symm).eq_of_pairwise'
      (List.pairwise_insertionSort (· ≤ ·) files) (List.pairwise_insertionSort (· ≤ ·) files')
  rw [stale_eq,stale_eq,same,perm.length_eq]

/-- Dumps of one machine have one label only if their URLs have. -/
theorem isOf_label {d e : Dump} (own : d.isOf host u) (theirs : e.isOf host v) (same : d.label = e.label) :
    dbNameFromUri u = dbNameFromUri v := by
  rw [Dump.label,Dump.label,own.1,own.2,theirs.1,theirs.2] at same
  exact Label.ext (List.cons.inj (List.append_cancel_left same)).2

/-- Different labels are different groups, and each window is that of a group. -/
theorem ownWindow_of_ne (host u v : List Char) (differ : dbNameFromUri u ≠ dbNameFromUri v) : OwnWindow host u v := by
  intro world removes retain dir alone without d member own
  have apart : ¬ d.isOf host v := fun other => differ (own.2.symm.trans other.2)
  have inside : d ∈ alone.dumps := by
    rw [without,List.mem_filter]
    exact ⟨member,by simpa using apart⟩
  have group : (dir.dumps.filter fun e => e.label = d.label) = alone.dumps.filter fun e => e.label = d.label := by
    rw [without,List.filter_filter]
    apply List.filter_congr
    intro e _
    by_cases same : e.label = d.label
    · have ours : ¬ e.isOf host v := fun theirs => differ (isOf_label own theirs same.symm)
      simp [same,ours]
    · simp [same]
  have perm : (dir.entries.filter (inGroup d.label)).Perm (alone.entries.filter (inGroup d.label)) := by
    refine (dir.group d.label).trans ?_
    rw [group]
    exact (alone.group d.label).symm
  rw [dir.kept world removes retain member,alone.kept world removes retain inside,stale_perm retain perm]

theorem apart_iff_label (host : List Char) (encrypted : Bool) (u v : List Char) :
    Apart host encrypted u v ↔ dbNameFromUri u ≠ dbNameFromUri v := by
  constructor
  · rintro ⟨paths,_⟩ same
    let midnight : Stamp := ⟨2026,1,1,0,0,0,by decide⟩
    exact paths midnight midnight (by rw [runBackup,runBackup,same])
  · intro differ
    refine ⟨?_,ownWindow_of_ne host u v differ,ownWindow_of_ne host v u differ.symm⟩
    intro s t same
    have groups := congrArg groupOf same
    rw [(groupOf_name _).2,(groupOf_name _).2] at groups
    exact differ (isOf_label ⟨rfl,rfl⟩ ⟨rfl,rfl⟩ groups)

/-- A URL with a database and no slash in its query is named by the database. -/
theorem namedPart_text (u : Uri) (named : u.path = some db) (nonempty : db ≠ []) (clean : '/' ∉ u.query.getD []) :
    namedPart u.text = db := by
  have found : u.found = db := by rw [Uri.found,if_neg clean,named,Option.getD_some]
  unfold namedPart
  simp only [if_pos (slash_mem_text u),found_text,found,if_neg nonempty]

/-- Two of the databases do not share dumps exactly if what their URLs are named by differs in more
than blanks, whatever hosts and ports they have. Where a URL has a database and no slash in its
query, it is named by the database. -/
theorem dumps_apart_iff (explicit : List (List Char)) (vars : List (List Char × List Char)) (host : List Char)
    (encrypted : Bool) :
    (∀ u ∈ discoverUris explicit vars, ∀ v ∈ discoverUris explicit vars,
      (Apart host encrypted u v ↔ ¬ Alike (namedPart u) (namedPart v))) ∧
    ∀ (u v : Uri) (d e : List Char), u.text ∈ discoverUris explicit vars → v.text ∈ discoverUris explicit vars →
      u.path = some d → v.path = some e → d ≠ [] → e ≠ [] → '/' ∉ u.query.getD [] → '/' ∉ v.query.getD [] →
      (Apart host encrypted u.text v.text ↔ ¬ Alike d e) := by
  have apart (u v : List Char) : Apart host encrypted u v ↔ ¬ Alike (namedPart u) (namedPart v) := by
    rw [apart_iff_label,dbNameFromUri_eq,dbNameFromUri_eq,ne_eq,sanitizeLabel_eq_iff]
  refine ⟨fun u _ v _ => apart u v,?_⟩
  intro u v d e _ _ named named' some_ some' clean clean'
  rw [apart,namedPart_text u named some_ clean,namedPart_text v named' some' clean']

/-- Two databases of one host. -/
theorem dumps_apart_of_names : ∃ explicit : List (List Char),
    discoverUris explicit [] = ["postgres://h1/app".toList,"postgres://h1/web".toList] ∧
    Apart "box".toList false "postgres://h1/app".toList "postgres://h1/web".toList := by
  refine ⟨["postgres://h1/web".toList,"postgres://h1/app".toList],by decide +kernel,?_⟩
  exact ((dumps_apart_iff ["postgres://h1/web".toList,"postgres://h1/app".toList] [] "box".toList false).1
    _ (by decide +kernel) _ (by decide +kernel)).mpr (by decide +kernel)

def hosted (host db : List Char) (plainHost : Plain host) (plainDb : '/' ∉ db ∧ '?' ∉ db) : Uri :=
  ⟨false,none,host,none,some db,none,by simp,plainHost,by decide,plainDb⟩

/-- One database name on two hosts: both dumps of a second are one file. -/
theorem two_hosts_one_dump : ¬ ∀ (explicit : List (List Char)) (vars : List (List Char × List Char)) (host : List Char)
    (encrypted : Bool) (u v : Uri), u.text ∈ discoverUris explicit vars → v.text ∈ discoverUris explicit vars →
    (u.host ≠ v.host ∨ u.port ≠ v.port ∨ u.path ≠ v.path) → Apart host encrypted u.text v.text := by
  intro holds
  let u := hosted "h1".toList "app".toList (by decide) (by decide)
  let v := hosted "h2".toList "app".toList (by decide) (by decide)
  obtain ⟨paths,_⟩ := holds [u.text,v.text] [] "box".toList false u v (by decide +kernel) (by decide +kernel)
    (.inl (by decide))
  exact paths ⟨2026,1,1,0,0,0,by decide⟩ ⟨2026,1,1,0,0,0,by decide⟩ (by decide +kernel)

end Malkuth.DbBackup
