import Malkuth.Blanks
import Malkuth.DbBackup
import Mathlib.Data.List.TakeWhile

/-! The label of a database URL, `db_name_from_uri`: it is searched for from the right, in the
text as a whole. A URL is given here by its parts, so that what the search finds can be compared
with the part it is meant to find. -/
namespace Malkuth.DbBackup

/-- `split(sep).next_back()`. -/
def afterLast (sep : Char) (cs : List Char) : List Char := (cs.reverse.takeWhile (· ≠ sep)).reverse

/-- `split(sep).next()`. -/
def beforeFirst (sep : Char) (cs : List Char) : List Char := cs.takeWhile (· ≠ sep)

def stripScheme (uri : List Char) : List Char :=
  if "postgres://".toList.isPrefixOf uri then uri.drop 11
  else if "postgresql://".toList.isPrefixOf uri then uri.drop 13
  else uri

def dbNameFromUri (uri : List Char) : Label :=
  let afterSlash := if '/' ∈ uri then afterLast '/' uri else []
  let name := beforeFirst '?' afterSlash
  if name = [] then sanitizeLabel (beforeFirst ':' (afterLast '@' (stripScheme uri)))
  else sanitizeLabel name

theorem afterLast_append (clean : sep ∉ back) : afterLast sep (front ++ back) = afterLast sep front ++ back := by
  have all : ∀ c ∈ back.reverse, decide (c ≠ sep) = true := by
    intro c member
    simpa using fun same : c = sep => clean (same ▸ List.mem_reverse.mp member)
  unfold afterLast
  rw [List.reverse_append,List.takeWhile_append_of_pos all,List.reverse_append,List.reverse_reverse]

theorem afterLast_clean (clean : sep ∉ back) : afterLast sep (front ++ sep :: back) = back := by
  rw [List.append_cons,afterLast_append clean]
  simp [afterLast]

theorem afterLast_none (clean : sep ∉ cs) : afterLast sep cs = cs := by
  have whole : afterLast sep ([] ++ cs) = afterLast sep [] ++ cs := afterLast_append clean
  simpa [afterLast] using whole

theorem afterLast_later (later : sep ∈ back) : afterLast sep (front ++ back) = afterLast sep back := by
  obtain ⟨after,before,eq,clean⟩ := List.eq_append_cons_of_mem (List.mem_reverse.mpr later)
  obtain rfl : back = before.reverse ++ sep :: after.reverse := by
    rw [← List.reverse_reverse back,eq]
    simp
  rw [← List.append_assoc,afterLast_clean (by simpa using clean),afterLast_clean (by simpa using clean)]

theorem beforeFirst_append (clean : sep ∉ front) : beforeFirst sep (front ++ back) = front ++ beforeFirst sep back := by
  have all : ∀ c ∈ front, decide (c ≠ sep) = true := by
    intro c member
    simpa using fun same : c = sep => clean (same ▸ member)
  exact List.takeWhile_append_of_pos all

theorem beforeFirst_clean (clean : sep ∉ front) : beforeFirst sep (front ++ sep :: back) = front := by
  rw [beforeFirst_append clean]
  simp [beforeFirst]

theorem beforeFirst_none (clean : sep ∉ cs) : beforeFirst sep cs = cs := by
  have whole : beforeFirst sep (cs ++ []) = cs ++ beforeFirst sep [] := beforeFirst_append clean
  simpa [beforeFirst] using whole

/-- A character that is a `_` in the label. -/
def isBlank (c : Char) : Bool := !isLabelChar c || c == '_'

def Alike (s t : List Char) : Prop := List.Forall₂ (fun c d => c = d ∨ isBlank c = true ∧ isBlank d = true) s t

instance (s t : List Char) : Decidable (Alike s t) := inferInstanceAs (Decidable (List.Forall₂ _ s t))

theorem sanitizeLabel_eq_iff : sanitizeLabel s = sanitizeLabel t ↔ Alike s t :=
  Label.ext_iff.trans (Blanks.replace_eq_iff s t)

def Plain (cs : List Char) : Prop := '/' ∉ cs ∧ '?' ∉ cs ∧ '@' ∉ cs ∧ ':' ∉ cs

instance (cs : List Char) : Decidable (Plain cs) := inferInstanceAs (Decidable (_ ∧ _))

/-- `(postgres|postgresql)://[user[:password]@]host[:port][/[db]][?query]`. -/
structure Uri where
  ql : Bool
  credentials : Option (List Char × Option (List Char))
  host : List Char
  port : Option (List Char)
  path : Option (List Char)
  query : Option (List Char)
  plainUser : ∀ user password, credentials = some (user,password) → Plain user ∧ Plain (password.getD [])
  plainHost : Plain host
  plainPort : Plain (port.getD [])
  plainDb : '/' ∉ path.getD [] ∧ '?' ∉ path.getD []

def Uri.scheme (u : Uri) : List Char := if u.ql then "postgresql://".toList else "postgres://".toList

def Uri.login (u : Uri) : List Char :=
  match u.credentials with
  | none => []
  | some (user,none) => user ++ ['@']
  | some (user,some password) => user ++ ':' :: password ++ ['@']

def Uri.portText (u : Uri) : List Char :=
  match u.port with
  | none => []
  | some port => ':' :: port

def Uri.pathText (u : Uri) : List Char :=
  match u.path with
  | none => []
  | some db => '/' :: db

def Uri.queryText (u : Uri) : List Char :=
  match u.query with
  | none => []
  | some query => '?' :: query

def Uri.authority (u : Uri) : List Char := u.login ++ u.host ++ u.portText

def Uri.text (u : Uri) : List Char := u.scheme ++ (u.authority ++ u.pathText ++ u.queryText)

/-- What the label is meant to show: the database, or else the host. -/
def Uri.meant (u : Uri) : List Char := if u.path.getD [] ≠ [] then u.path.getD [] else u.host

theorem stripScheme_text (u : Uri) : stripScheme u.text = u.authority ++ u.pathText ++ u.queryText := by
  unfold Uri.text
  generalize u.authority ++ u.pathText ++ u.queryText = rest
  unfold Uri.scheme stripScheme
  cases u.ql with
  | false =>
    have own : "postgres://".toList.isPrefixOf ("postgres://".toList ++ rest) = true := by simp
    rw [if_neg Bool.false_ne_true,if_pos own]
    exact List.drop_left' rfl
  | true =>
    have other : "postgres://".toList.isPrefixOf ("postgresql://".toList ++ rest) = false := by simp [List.isPrefixOf]
    have own : "postgresql://".toList.isPrefixOf ("postgresql://".toList ++ rest) = true := by simp
    rw [if_pos rfl,if_neg (by rw [other]; exact Bool.false_ne_true),if_pos own]
    exact List.drop_left' rfl

theorem login_clean (u : Uri) : '/' ∉ u.login ∧ '?' ∉ u.login := by
  unfold Uri.login
  rcases logins : u.credentials with _ | ⟨user,_ | password⟩
  · simp
  · obtain ⟨⟨slash,mark,_,_⟩,_⟩ := u.plainUser _ _ logins
    simp [slash,mark]
  · obtain ⟨⟨slash,mark,_,_⟩,slash',mark',_,_⟩ := u.plainUser _ _ logins
    rw [Option.getD_some] at slash' mark'
    simp [slash,mark,slash',mark']

theorem portText_clean (u : Uri) : '/' ∉ u.portText ∧ '?' ∉ u.portText ∧ '@' ∉ u.portText := by
  obtain ⟨slash,mark,at_,_⟩ := u.plainPort
  unfold Uri.portText
  cases ports : u.port with
  | none => simp
  | some port =>
    rw [ports,Option.getD_some] at slash mark at_
    simp [slash,mark,at_]

/-- The authority has no slash and no question mark. -/
theorem authority_clean (u : Uri) : '/' ∉ u.authority ∧ '?' ∉ u.authority := by
  have login := login_clean u
  have host := u.plainHost
  have port := portText_clean u
  unfold Uri.authority
  simp only [List.mem_append,not_or]
  exact ⟨⟨⟨login.1,host.1⟩,port.1⟩,⟨login.2,host.2.1⟩,port.2.1⟩

/-- The query starts where the text before it has no question mark. -/
theorem beforeFirst_query (u : Uri) (clean : '?' ∉ front) : beforeFirst '?' (front ++ u.queryText) = front := by
  unfold Uri.queryText
  cases u.query with
  | none =>
    rw [List.append_nil]
    exact beforeFirst_none clean
  | some query => exact beforeFirst_clean clean

/-- What stands after the last slash, up to a question mark. -/
def Uri.found (u : Uri) : List Char :=
  if '/' ∈ u.query.getD [] then beforeFirst '?' (afterLast '/' (u.query.getD []))
  else u.path.getD u.authority

theorem mem_queryText (other : c ≠ '?') (u : Uri) : c ∈ u.queryText ↔ c ∈ u.query.getD [] := by
  unfold Uri.queryText
  cases u.query <;> simp [other]

theorem afterLast_queryText {u : Uri} (later : c ∈ u.query.getD []) (other : c ≠ '?') (front : List Char) :
    afterLast c (front ++ u.queryText) = afterLast c (u.query.getD []) := by
  rw [afterLast_later ((mem_queryText other u).mpr later)]
  unfold Uri.queryText
  cases queries : u.query with
  | none => simp [queries] at later
  | some query =>
    rw [queries,Option.getD_some] at later
    have marked : afterLast c (['?'] ++ query) = afterLast c query := afterLast_later later
    exact marked

theorem found_text (u : Uri) : beforeFirst '?' (afterLast '/' u.text) = u.found := by
  obtain ⟨slash,mark⟩ := authority_clean u
  unfold Uri.text Uri.found
  split
  next later => rw [← List.append_assoc,afterLast_queryText later (by decide)]
  next none_ =>
    have clean : '/' ∉ u.queryText := fun member => none_ ((mem_queryText (by decide) u).mp member)
    unfold Uri.pathText
    cases paths : u.path with
    | none =>
      have scheme : ∃ front, u.scheme = front ++ ['/'] := by
        unfold Uri.scheme
        cases u.ql with
        | false => exact ⟨"postgres:/".toList,rfl⟩
        | true => exact ⟨"postgresql:/".toList,rfl⟩
      obtain ⟨front,eq⟩ := scheme
      rw [eq,List.append_nil,List.append_assoc,List.singleton_append,afterLast_clean (by simp [slash,clean])]
      exact beforeFirst_query u mark
    | some db =>
      have plain := u.plainDb
      rw [paths,Option.getD_some] at plain
      rw [List.append_assoc,List.cons_append,← List.append_assoc,afterLast_clean (by simp [plain.1,clean])]
      exact beforeFirst_query u plain.2

def Uri.fallback (u : Uri) : List Char :=
  beforeFirst ':' (afterLast '@' (u.authority ++ u.pathText ++ u.queryText))

theorem slash_mem_text (u : Uri) : '/' ∈ u.text := by
  unfold Uri.text Uri.scheme
  cases u.ql <;> simp

theorem dbNameFromUri_text (u : Uri) :
    dbNameFromUri u.text = sanitizeLabel (if u.found = [] then u.fallback else u.found) := by
  unfold dbNameFromUri
  simp only [if_pos (slash_mem_text u),found_text,stripScheme_text]
  split
  · rfl
  · rfl

/-- What is read for the host where a database is named: what the database has after its last `@`,
the host if a port ends it, or the host and the database; up to a colon. -/
def Uri.overshot (u : Uri) : List Char :=
  let db := u.path.getD []
  if '@' ∈ db then beforeFirst ':' (afterLast '@' db ++ u.queryText)
  else if u.port = none then u.host ++ '/' :: beforeFirst ':' (db ++ u.queryText)
  else u.host

/-- What the query brings into the label: a piece of its own, after its last slash or its last
`@`, or the host although there is a database. -/
def Uri.strayed (u : Uri) : Option (List Char) :=
  let query := u.query.getD []
  if '/' ∈ query ∧ beforeFirst '?' (afterLast '/' query) ≠ [] then some (beforeFirst '?' (afterLast '/' query))
  else if '@' ∈ query ∧ ('/' ∈ query ∨ u.path.getD u.authority = []) then some (beforeFirst ':' (afterLast '@' query))
  else if '/' ∈ query ∧ u.path.getD [] ≠ [] then some u.overshot
  else none

/-- The URLs whose label is right. If the query does not interfere: those with a database, those
of a host alone, and those with a port where the host is looked for. -/
def Uri.Readable (u : Uri) : Prop :=
  match u.strayed with
  | some piece => Alike piece u.meant
  | none => u.path.getD [] ≠ [] ∨
      u.path = none ∧ '/' ∉ u.query.getD [] ∧ u.credentials = none ∧ u.port = none ∧ (u.host ≠ [] ∨ u.query = none) ∨
      (u.path = some [] ∨ u.path = none ∧ '/' ∈ u.query.getD []) ∧ u.port ≠ none

theorem length_sanitizeLabel (s : List Char) : (sanitizeLabel s).text.length = s.length := by
  simp [sanitizeLabel]

theorem length_of_sanitizeLabel (same : sanitizeLabel s = sanitizeLabel t) : s.length = t.length := by
  rw [← length_sanitizeLabel s,same,length_sanitizeLabel]

theorem login_eq_nil (u : Uri) : u.login = [] ↔ u.credentials = none := by
  unfold Uri.login
  rcases u.credentials with _ | ⟨user,_ | password⟩ <;> simp

theorem portText_eq_nil (u : Uri) : u.portText = [] ↔ u.port = none := by
  unfold Uri.portText
  cases u.port <;> simp

theorem afterLast_login (u : Uri) (clean : '@' ∉ rest) : afterLast '@' (u.login ++ rest) = rest := by
  unfold Uri.login
  rcases u.credentials with _ | ⟨user,_ | password⟩
  · exact afterLast_none clean
  · rw [List.append_assoc]
    exact afterLast_clean clean
  · rw [List.append_assoc]
    exact afterLast_clean clean

/-- Without an `@` after it, the host starts what is taken for it. -/
theorem fallback_eq (u : Uri) (noDb : u.path = some [] ∨ u.path = none) (clean : '@' ∉ u.query.getD []) :
    u.fallback = beforeFirst ':' (u.host ++ (u.portText ++ (u.pathText ++ u.queryText))) := by
  have query : '@' ∉ u.queryText := fun member => clean ((mem_queryText (by decide) u).mp member)
  have path : '@' ∉ u.pathText := by
    unfold Uri.pathText
    rcases noDb with eq | eq <;> simp [eq]
  unfold Uri.fallback Uri.authority
  simp only [List.append_assoc]
  rw [afterLast_login]
  simp only [List.mem_append,not_or]
  exact ⟨u.plainHost.2.2.1,(portText_clean u).2.2,path,query⟩

/-- The host is found if a port ends it, or the URL. -/
theorem fallback_label (u : Uri) (noDb : u.path = some [] ∨ u.path = none) (more : u.path ≠ none ∨ u.query ≠ none)
    (clean : '@' ∉ u.query.getD []) : sanitizeLabel u.fallback = sanitizeLabel u.host ↔ u.port ≠ none := by
  have colon := u.plainHost.2.2.2
  obtain ⟨c,rest,next,other⟩ : ∃ c rest, u.pathText ++ u.queryText = c :: rest ∧ c ≠ ':' := by
    unfold Uri.pathText Uri.queryText
    rcases noDb with path | path
    · exact ⟨'/',_,by rw [path]; rfl,by decide⟩
    · obtain ⟨query,known⟩ := Option.ne_none_iff_exists'.mp (more.resolve_left (by simp [path]))
      exact ⟨'?',query,by rw [path,known]; rfl,by decide⟩
  rw [fallback_eq u noDb clean,next]
  unfold Uri.portText
  cases u.port with
  | some port => simp [beforeFirst_clean colon]
  | none =>
    have longer : beforeFirst ':' (u.host ++ c :: rest) = u.host ++ c :: beforeFirst ':' rest := by
      rw [beforeFirst_append colon]
      simp [beforeFirst,other]
    simp only [List.nil_append,longer,ne_eq,not_true_eq_false,iff_false]
    intro same
    have := length_of_sanitizeLabel same
    simp at this

/-- No path: what precedes the query is taken for the database. -/
theorem noPath_label (u : Uri) (some_ : u.authority ≠ []) :
    sanitizeLabel u.authority = sanitizeLabel u.host ↔
      u.credentials = none ∧ u.port = none ∧ (u.host ≠ [] ∨ u.query = none) := by
  rw [← login_eq_nil,← portText_eq_nil]
  constructor
  · intro same
    have lengths := length_of_sanitizeLabel same
    simp only [Uri.authority,List.length_append] at lengths
    have login : u.login = [] := List.length_eq_zero_iff.mp (by omega)
    have port : u.portText = [] := List.length_eq_zero_iff.mp (by omega)
    refine ⟨login,port,.inl ?_⟩
    simpa [Uri.authority,login,port] using some_
  · rintro ⟨login,port,_⟩
    rw [Uri.authority,login,port,List.nil_append,List.append_nil]

/-- Nothing but a query. -/
theorem noHost_label (u : Uri) (noPath : u.path = none) (empty : u.authority = []) (clean : '@' ∉ u.query.getD []) :
    sanitizeLabel u.fallback = sanitizeLabel u.host ↔ u.query = none := by
  obtain ⟨front,port⟩ := List.append_eq_nil_iff.mp empty
  obtain ⟨_,host⟩ := List.append_eq_nil_iff.mp front
  by_cases queries : u.query = none
  · rw [fallback_eq u (.inr noPath) clean,host,port]
    simp [Uri.pathText,Uri.queryText,noPath,queries,beforeFirst]
  · rw [fallback_label u (.inr noPath) (.inr queries) clean]
    simp [queries,(portText_eq_nil u).mp port]

theorem fallback_query (u : Uri) (mail : '@' ∈ u.query.getD []) :
    u.fallback = beforeFirst ':' (afterLast '@' (u.query.getD [])) := by
  rw [Uri.fallback,afterLast_queryText mail (by decide)]

/-- A database is named, and the query has no `@`. -/
theorem fallback_db (u : Uri) (named : u.path.getD [] ≠ []) (clean : '@' ∉ u.query.getD []) : u.fallback = u.overshot := by
  obtain ⟨db,known⟩ : ∃ db, u.path = some db := by
    cases paths : u.path with
    | none => simp [paths] at named
    | some db => exact ⟨db,rfl⟩
  have query : '@' ∉ u.queryText := fun member => clean ((mem_queryText (by decide) u).mp member)
  have path : u.pathText = '/' :: db := by rw [Uri.pathText,known]
  unfold Uri.fallback Uri.authority Uri.overshot
  simp only [known,Option.getD_some,path,List.append_assoc,List.cons_append]
  by_cases mail : '@' ∈ db
  · have halves : u.login ++ (u.host ++ (u.portText ++ '/' :: (db ++ u.queryText))) =
        (u.login ++ (u.host ++ (u.portText ++ ['/']))) ++ (db ++ u.queryText) := by simp
    rw [if_pos mail,halves,afterLast_later (List.mem_append_left _ mail),afterLast_append query]
  · rw [if_neg mail,afterLast_login u (by simp [u.plainHost.2.2.1,(portText_clean u).2.2,mail,query]),
      beforeFirst_append u.plainHost.2.2.2,Uri.portText]
    cases u.port with
    | none => rw [if_pos rfl,List.nil_append,beforeFirst,List.takeWhile_cons,if_pos (by decide),beforeFirst]
    | some port => simp [beforeFirst]

theorem meant_host (u : Uri) (noDb : u.path.getD [] = []) : u.meant = u.host := by
  rw [Uri.meant,if_neg (by simp [noDb])]

theorem noDb_cases (u : Uri) (noDb : u.path.getD [] = []) : u.path = some [] ∨ u.path = none := by
  cases paths : u.path with
  | none => exact .inr rfl
  | some db =>
    obtain rfl : db = [] := by simpa [paths] using noDb
    exact .inl rfl

/-- A query with a slash. -/
theorem label_right_slash (u : Uri) (slash : '/' ∈ u.query.getD []) :
    sanitizeLabel (if u.found = [] then u.fallback else u.found) = sanitizeLabel u.meant ↔ u.Readable := by
  have found : u.found = beforeFirst '?' (afterLast '/' (u.query.getD [])) := by rw [Uri.found,if_pos slash]
  unfold Uri.Readable Uri.strayed
  simp only [← found,slash,true_and,true_or,and_true,not_true_eq_false,false_and,and_false,false_or]
  by_cases empty : u.found = []
  · rw [if_pos empty,if_neg (by simp [empty])]
    by_cases mail : '@' ∈ u.query.getD []
    · rw [if_pos mail,fallback_query u mail]
      exact sanitizeLabel_eq_iff
    · rw [if_neg mail]
      by_cases noDb : u.path.getD [] = []
      · have queries : u.query ≠ none := fun none_ => by simp [none_] at slash
        have cases_ := noDb_cases u noDb
        rw [if_neg (by simp [noDb]),meant_host u noDb,fallback_label u cases_ (.inr queries) mail]
        simp [noDb,cases_]
      · rw [if_pos noDb,fallback_db u noDb mail]
        exact sanitizeLabel_eq_iff
  · rw [if_neg empty,if_pos empty]
    exact sanitizeLabel_eq_iff

/-- A query without one. -/
theorem label_right_clean (u : Uri) (clean : '/' ∉ u.query.getD []) :
    sanitizeLabel (if u.found = [] then u.fallback else u.found) = sanitizeLabel u.meant ↔ u.Readable := by
  have found : u.found = u.path.getD u.authority := by rw [Uri.found,if_neg clean]
  unfold Uri.Readable Uri.strayed
  simp only [found,clean,false_and,false_or,if_false,not_false_eq_true,true_and,and_false,or_false]
  by_cases named : u.path.getD u.authority = []
  · have noDb : u.path.getD [] = [] := by
      cases paths : u.path <;> simp_all
    rw [if_pos named,meant_host u noDb]
    by_cases mail : '@' ∈ u.query.getD []
    · rw [if_pos ⟨mail,named⟩,fallback_query u mail]
      exact sanitizeLabel_eq_iff
    · rw [if_neg (fun both => mail both.1)]
      rcases noDb_cases u noDb with path | path
      · rw [fallback_label u (.inl path) (.inl (by simp [path])) mail]
        simp [path]
      · rw [path,Option.getD_none] at named
        obtain ⟨front,port⟩ := List.append_eq_nil_iff.mp named
        obtain ⟨login,host⟩ := List.append_eq_nil_iff.mp front
        rw [noHost_label u path named mail]
        simp [path,host,(login_eq_nil u).mp login,(portText_eq_nil u).mp port]
  · rw [if_neg named,if_neg (fun both => named both.2)]
    unfold Uri.meant
    cases paths : u.path with
    | none =>
      rw [paths,Option.getD_none] at named
      simpa using noPath_label u named
    | some db =>
      rw [paths,Option.getD_some] at named
      simp [named]

/-- When the label of a URL is that of its database, or of its host if it names none. -/
theorem label_right_iff (u : Uri) : dbNameFromUri u.text = sanitizeLabel u.meant ↔ u.Readable := by
  rw [dbNameFromUri_text]
  by_cases slash : '/' ∈ u.query.getD []
  · exact label_right_slash u slash
  · exact label_right_clean u slash

/-- Credentials and no path: the label shows the user and the password. -/
theorem password_in_label : ∃ u : Uri, u.text = "postgres://u:p@h".toList ∧
    (dbNameFromUri u.text).text = "u_p_h".toList ∧ ¬ dbNameFromUri u.text = sanitizeLabel u.meant := by
  let u : Uri :=
    { ql := false, credentials := some (['u'],some ['p']), host := ['h'], port := none, path := none, query := none
      plainUser := by
        rintro user password same
        obtain ⟨rfl,rfl⟩ := Prod.mk.inj (Option.some.inj same)
        decide
      plainHost := by decide
      plainPort := by decide
      plainDb := by decide }
  exact ⟨u,by decide,by decide,by decide⟩

end Malkuth.DbBackup
