import GreenCommunity.Base.Percent
import GreenCommunity.Base.Text

/-!
# Connection URLs

`Settings.database_url` and `Settings.redis_url` put the credentials into a URL with
`quote_plus`.  Who connects takes the URL apart at its delimiters and reads user and
password with `unquote`: SQLAlchemy's `make_url` ends the user at the first colon and
the password at the first `@`, and `urlparse`, which redis-py's `from_url` uses, ends the
credentials at the last `@` before the path.

Quoted text has none of these delimiters in it, so what stands for the credentials is
cut out whole and the place to connect to is never touched.  But a space becomes a plus
sign on the way (`credentials_carried_iff`).

A `REDIS_PASSWORD` that is empty or blank is not set: the URL has no credentials then.
-/

namespace GreenCommunity.Config

open GreenCommunity.Base
open GreenCommunity.Base.Percent

/-! ## `config.py` -/

/-- `_empty_str_to_none` -/
def emptyStrToNone : Option String → Option String
  | some value => if Text.strip value = "" then none else some value
  | none => none

theorem emptyStrToNone_idem (value : Option String) :
    emptyStrToNone (emptyStrToNone value) = emptyStrToNone value := by
  cases value with
  | none => rfl
  | some value =>
      by_cases hblank : Text.strip value = "" <;> simp [emptyStrToNone, hblank]

structure Settings where
  mysqlHost : String
  mysqlPort : Int
  mysqlUser : String
  mysqlPassword : String
  mysqlDb : String
  redisHost : String
  redisPort : Int
  redisPassword : Option String
  redisDb : Int
  /-- The validator has been at it. -/
  redisPassword_set : emptyStrToNone redisPassword = redisPassword
  deriving DecidableEq

def quoted (text : String) : String := String.ofList (quotePlus text.toList)

/-- What stands after the credentials in `database_url`. -/
def Settings.mysqlPlace (s : Settings) : String :=
  s.mysqlHost ++ ":" ++ toString s.mysqlPort ++ "/" ++ s.mysqlDb ++ "?charset=utf8mb4"

def Settings.databaseUrl (s : Settings) : String :=
  let user := quoted s.mysqlUser
  let password := quoted s.mysqlPassword
  "mysql+pymysql://" ++ user ++ ":" ++ password ++ "@" ++ s.mysqlPlace

def Settings.redisPlace (s : Settings) : String :=
  s.redisHost ++ ":" ++ toString s.redisPort ++ "/" ++ toString s.redisDb

def Settings.redisUrl (s : Settings) : String :=
  let password := match s.redisPassword with
    | some secret => ":" ++ quoted secret ++ "@"
    | none => ""
  "redis://" ++ password ++ s.redisPlace

/-! ## Taking a URL apart -/

/-- The place to connect to: host, port and database as they stand in the URL. -/
structure Place where
  host : List Char
  port : List Char
  database : List Char
  deriving DecidableEq

def place (text : List Char) : Place :=
  let authority := text.takeWhile fun c => c ≠ '/'
  let path := (text.dropWhile fun c => c ≠ '/').drop 1
  { host := authority.takeWhile fun c => c ≠ ':'
    port := (authority.dropWhile fun c => c ≠ ':').drop 1
    database := path.takeWhile fun c => c ≠ '?' }

/-- Credentials that are not given are not sent. -/
structure Connection where
  username : Option String
  password : Option String
  place : Place
  deriving DecidableEq

/-- What stands behind `scheme://`. -/
def afterScheme (url : List Char) : Option (List Char) :=
  match url.dropWhile fun c => c ≠ ':' with
  | ':' :: '/' :: '/' :: rest => some rest
  | _ => none

def read (text : List Char) : String := String.ofList (unquote text)

/-- `make_url`, for a URL with user and password. -/
def makeUrl (url : String) : Option Connection := do
  let rest ← afterScheme url.toList
  let username := rest.takeWhile fun c => c ≠ ':' && c ≠ '/'
  match rest.dropWhile fun c => c ≠ ':' && c ≠ '/' with
  | ':' :: rest =>
      match rest.dropWhile fun c => c ≠ '@' with
      | '@' :: after =>
          some ⟨some (read username), some (read (rest.takeWhile fun c => c ≠ '@')),
            place after⟩
      | _ => none
  | _ => none

def inNetloc (c : Char) : Bool := c ≠ '/' && c ≠ '?' && c ≠ '#'

/-- `from_url` ignores a user or a password that is empty. -/
def given (text : List Char) : Option String := if text = [] then none else some (read text)

/-- `from_url` -/
def fromUrl (url : String) : Option Connection := do
  let rest ← afterScheme url.toList
  let netloc := rest.takeWhile inNetloc
  let path := rest.dropWhile inNetloc
  let userinfo := (netloc.rdropWhile fun c => c ≠ '@').dropLast
  let hostinfo := netloc.rtakeWhile fun c => c ≠ '@'
  let username := userinfo.takeWhile fun c => c ≠ ':'
  let password := (userinfo.dropWhile fun c => c ≠ ':').drop 1
  some ⟨given username, given password, place (hostinfo ++ path)⟩

/-! ## What the URLs carry -/

def Settings.withCredentials (s : Settings) (user password : String) : Settings :=
  { s with mysqlUser := user, mysqlPassword := password }

/-- The settings with this in `REDIS_PASSWORD`. -/
def Settings.withSecret (s : Settings) (secret : String) : Settings :=
  { s with
    redisPassword := emptyStrToNone (some secret)
    redisPassword_set := emptyStrToNone_idem _ }

/-- The place that the URL is about, whatever the credentials are. -/
def Settings.mysqlTarget (s : Settings) : Place := place s.mysqlPlace.toList

def Settings.redisTarget (s : Settings) : Place := place s.redisPlace.toList

/-- User and password arrive, and with others in their stead the place is the same. -/
def Settings.MysqlCarried (s : Settings) : Prop :=
  makeUrl s.databaseUrl = some ⟨some s.mysqlUser, some s.mysqlPassword, s.mysqlTarget⟩ ∧
    ∀ user password, ∃ c, makeUrl (s.withCredentials user password).databaseUrl = some c ∧
      c.place = s.mysqlTarget

/-- So much arrives of what is in `REDIS_PASSWORD`, and with anything else in its stead the
place is the same. -/
def Settings.RedisArrives (s : Settings) (secret : String) (password : Option String) : Prop :=
  fromUrl (s.withSecret secret).redisUrl = some ⟨none, password, s.redisTarget⟩ ∧
    ∀ other, ∃ c, fromUrl (s.withSecret other).redisUrl = some c ∧ c.place = s.redisTarget

def Settings.RedisCarried (s : Settings) (secret : String) : Prop :=
  s.RedisArrives secret (some secret)

/-! ## Cutting at a delimiter -/

section Cuts

variable {p : Char → Bool} {text rest : List Char} {c : Char}

theorem takeWhile_cut (htext : ∀ d ∈ text, p d = true) (hc : p c = false) :
    (text ++ c :: rest).takeWhile p = text := by
  rw [List.takeWhile_append_of_pos htext, List.takeWhile_cons_of_neg (by simp [hc]),
    List.append_nil]

theorem dropWhile_cut (htext : ∀ d ∈ text, p d = true) (hc : p c = false) :
    (text ++ c :: rest).dropWhile p = c :: rest := by
  rw [List.dropWhile_append_of_pos htext, List.dropWhile_cons_of_neg (by simp [hc])]

theorem rtakeWhile_cut (hrest : ∀ d ∈ rest, p d = true) (hc : p c = false) :
    (text ++ c :: rest).rtakeWhile p = rest := by
  rw [List.rtakeWhile, List.reverse_append, List.reverse_cons, List.append_assoc,
    List.singleton_append, takeWhile_cut (by simpa using hrest) hc, List.reverse_reverse]

theorem rdropWhile_cut (hrest : ∀ d ∈ rest, p d = true) (hc : p c = false) :
    (text ++ c :: rest).rdropWhile p = text ++ [c] := by
  rw [List.rdropWhile, List.reverse_append, List.reverse_cons, List.append_assoc,
    List.singleton_append, dropWhile_cut (by simpa using hrest) hc, List.reverse_cons,
    List.reverse_reverse]

/-- Text that has the character in it is cut at the last one. -/
theorem exists_last (h : c ∈ text) : ∃ before after, text = before ++ c :: after ∧ c ∉ after := by
  obtain ⟨after, before, hsplit, hafter⟩ :=
    List.eq_append_cons_of_mem (List.mem_reverse.mpr h)
  refine ⟨before.reverse, after.reverse, ?_, by simpa using hafter⟩
  rw [← List.reverse_reverse text, hsplit]
  simp

end Cuts

/-- The text with its spaces written as plus signs. -/
def plussed (text : String) : String := String.ofList (text.toList.map spaceToPlus)

theorem plussed_eq_iff {text : String} : plussed text = text ↔ ' ' ∉ text.toList := by
  rw [plussed, ← String.toList_inj, String.toList_ofList]
  constructor
  · intro h hmem
    rw [← h] at hmem
    obtain ⟨c, _, hc⟩ := List.mem_map.mp hmem
    rw [spaceToPlus] at hc
    split at hc
    next => exact absurd hc (by decide)
    next hne => exact hne hc
  · intro h
    refine (List.map_congr_left fun c hc => ?_).trans (List.map_id _)
    refine if_neg ?_
    rintro rfl
    exact h hc

theorem read_quotePlus (text : String) : read (quotePlus text.toList) = plussed text := by
  rw [read, unquote_quotePlus, plussed]

/-- Quoted text has no delimiter in it. -/
theorem ne_of_mem_quotePlus {c d : Char} {text : List Char} (hc : c ∈ ":/?#@".toList)
    (hd : d ∈ quotePlus text) : d ≠ c := by
  have hall : ∀ c ∈ ":/?#@".toList, alwaysSafe c = false ∧ c ≠ '%' ∧ c ≠ '+' := by
    simp [alwaysSafe]
  obtain ⟨hsafe, hpercent, hplus⟩ := hall c hc
  rintro rfl
  exact notMem_quotePlus hsafe hpercent hplus text hd

theorem afterScheme_mysql (rest : List Char) :
    afterScheme ("mysql+pymysql://".toList ++ rest) = some rest := by
  simp [afterScheme]

theorem afterScheme_redis (rest : List Char) :
    afterScheme ("redis://".toList ++ rest) = some rest := by
  simp [afterScheme]

@[simp] theorem toList_quoted (text : String) : (quoted text).toList = quotePlus text.toList :=
  String.toList_ofList

theorem toList_databaseUrl (s : Settings) :
    s.databaseUrl.toList = "mysql+pymysql://".toList ++
      (quotePlus s.mysqlUser.toList ++ ':' ::
        (quotePlus s.mysqlPassword.toList ++ '@' :: s.mysqlPlace.toList)) := by
  have hcolon : ":".toList = [':'] := rfl
  have hat : "@".toList = ['@'] := rfl
  unfold Settings.databaseUrl
  simp only [String.toList_append, toList_quoted, List.append_assoc, hcolon, hat,
    List.cons_append, List.nil_append]

/-- What `make_url` makes of `database_url`. -/
theorem makeUrl_databaseUrl (s : Settings) :
    makeUrl s.databaseUrl =
      some ⟨some (plussed s.mysqlUser), some (plussed s.mysqlPassword), s.mysqlTarget⟩ := by
  have huser : ∀ c ∈ quotePlus s.mysqlUser.toList, (c ≠ ':' && c ≠ '/') = true := by
    intro c hc
    simp [ne_of_mem_quotePlus (show ':' ∈ _ by decide) hc,
      ne_of_mem_quotePlus (show '/' ∈ _ by decide) hc]
  have hpassword : ∀ c ∈ quotePlus s.mysqlPassword.toList, decide (c ≠ '@') = true := by
    intro c hc
    simp [ne_of_mem_quotePlus (show '@' ∈ _ by decide) hc]
  have hcolon : (decide (':' ≠ ':') && decide (':' ≠ '/')) = false := by decide
  have hat : decide ('@' ≠ '@') = false := by decide
  rw [makeUrl, toList_databaseUrl, afterScheme_mysql]
  simp only [Option.bind_eq_bind, Option.bind_some, takeWhile_cut huser hcolon,
    dropWhile_cut huser hcolon, takeWhile_cut hpassword hat, dropWhile_cut hpassword hat,
    read_quotePlus]
  rfl

/-! ## The password of Redis -/

section Redis

variable {s : Settings} {secret : String}

theorem redisPassword_of_set (hset : Text.strip secret ≠ "") :
    (s.withSecret secret).redisPassword = some secret := if_neg hset

theorem redisPassword_of_blank (hblank : Text.strip secret = "") :
    (s.withSecret secret).redisPassword = none := if_pos hblank

/-- The first part of the place, up to the path. -/
def Settings.redisNetloc (s : Settings) : List Char := s.redisPlace.toList.takeWhile inNetloc

def Settings.redisPath (s : Settings) : List Char := s.redisPlace.toList.dropWhile inNetloc

theorem redisNetloc_append (s : Settings) : s.redisNetloc ++ s.redisPath = s.redisPlace.toList :=
  List.takeWhile_append_dropWhile

theorem inNetloc_quotePlus {c : Char} {text : List Char} (hc : c ∈ quotePlus text) :
    inNetloc c = true := by
  simp [inNetloc, ne_of_mem_quotePlus (show '/' ∈ _ by decide) hc,
    ne_of_mem_quotePlus (show '?' ∈ _ by decide) hc,
    ne_of_mem_quotePlus (show '#' ∈ _ by decide) hc]

/-- What stands before the place, which is nothing or the credentials. -/
def userinfo (secret : String) : List Char :=
  if Text.strip secret = "" then [] else ':' :: quotePlus secret.toList ++ ['@']

theorem inNetloc_userinfo : ∀ c ∈ userinfo secret, inNetloc c = true := by
  intro c hc
  rw [userinfo] at hc
  split at hc
  · cases hc
  · rcases List.mem_append.mp hc with hc | hc
    · rcases List.mem_cons.mp hc with rfl | hc
      · decide
      · exact inNetloc_quotePlus hc
    · rw [List.mem_singleton.mp hc]
      decide

theorem toList_redisUrl (s : Settings) (secret : String) :
    (s.withSecret secret).redisUrl.toList =
      "redis://".toList ++ (userinfo secret ++ s.redisPlace.toList) := by
  have hcolon : ":".toList = [':'] := rfl
  have hat : "@".toList = ['@'] := rfl
  rw [Settings.redisUrl, userinfo]
  by_cases hblank : Text.strip secret = ""
  · rw [redisPassword_of_blank hblank, if_pos hblank]
    simp only [String.toList_append, String.toList_empty]
    rfl
  · rw [redisPassword_of_set hblank, if_neg hblank]
    simp only [String.toList_append, toList_quoted, List.append_assoc, hcolon, hat,
      List.cons_append, List.nil_append]
    rfl

/-- `from_url` cuts at the last `@` before the path. -/
theorem fromUrl_cut (s : Settings) (secret : String) :
    fromUrl (s.withSecret secret).redisUrl =
      let netloc := userinfo secret ++ s.redisNetloc
      let info := (netloc.rdropWhile fun c => c ≠ '@').dropLast
      some ⟨given (info.takeWhile fun c => c ≠ ':'),
        given ((info.dropWhile fun c => c ≠ ':').drop 1),
        place ((netloc.rtakeWhile fun c => c ≠ '@') ++ s.redisPath)⟩ := by
  have hnetloc : (userinfo secret ++ s.redisPlace.toList).takeWhile inNetloc =
      userinfo secret ++ s.redisNetloc := List.takeWhile_append_of_pos inNetloc_userinfo
  have hpath : (userinfo secret ++ s.redisPlace.toList).dropWhile inNetloc = s.redisPath :=
    List.dropWhile_append_of_pos inNetloc_userinfo
  rw [fromUrl, toList_redisUrl, afterScheme_redis]
  simp only [Option.bind_eq_bind, Option.bind_some, hnetloc, hpath]

/-- What is left of a password that is set is something. -/
theorem quotePlus_ne_nil (hset : Text.strip secret ≠ "") : quotePlus secret.toList ≠ [] := by
  intro hnil
  have hread := read_quotePlus secret
  rw [hnil, plussed, ← String.toList_inj, String.toList_ofList] at hread
  have hsecret : secret.toList = [] := List.map_eq_nil_iff.mp hread.symm
  exact hset (by rw [Text.strip, hsecret]; rfl)

/-! ### A host without an `@` -/

theorem ne_at {text : List Char} (h : '@' ∉ text) : ∀ c ∈ text, decide (c ≠ '@') = true := by
  intro c hc
  rw [decide_eq_true_iff]
  rintro rfl
  exact h hc

theorem fromUrl_set (hset : Text.strip secret ≠ "") (hhost : '@' ∉ s.redisNetloc) :
    fromUrl (s.withSecret secret).redisUrl =
      some ⟨none, some (plussed secret), s.redisTarget⟩ := by
  have hat : decide ('@' ≠ '@') = false := by decide
  have hinfo : userinfo secret ++ s.redisNetloc =
      ':' :: quotePlus secret.toList ++ '@' :: s.redisNetloc := by
    rw [userinfo, if_neg hset, List.append_assoc, List.singleton_append]
  rw [fromUrl_cut, hinfo]
  simp only [rdropWhile_cut (ne_at hhost) hat, rtakeWhile_cut (ne_at hhost) hat,
    List.dropLast_concat, redisNetloc_append]
  show some (Connection.mk (given []) (given (quotePlus secret.toList)) s.redisTarget) = _
  rw [given, given, if_pos rfl, if_neg (quotePlus_ne_nil hset), read_quotePlus]

theorem fromUrl_blank (hblank : Text.strip secret = "") (hhost : '@' ∉ s.redisNetloc) :
    fromUrl (s.withSecret secret).redisUrl = some ⟨none, none, s.redisTarget⟩ := by
  have hinfo : userinfo secret ++ s.redisNetloc = s.redisNetloc := by
    rw [userinfo, if_pos hblank, List.nil_append]
  rw [fromUrl_cut, hinfo]
  simp only [List.rdropWhile_eq_nil_iff.mpr (ne_at hhost),
    List.rtakeWhile_eq_self_iff.mpr (ne_at hhost), redisNetloc_append]
  rfl

theorem redisTarget_of_plain (hhost : '@' ∉ s.redisNetloc) (secret : String) :
    ∃ c, fromUrl (s.withSecret secret).redisUrl = some c ∧ c.place = s.redisTarget := by
  by_cases hblank : Text.strip secret = ""
  · exact ⟨_, fromUrl_blank hblank hhost, rfl⟩
  · exact ⟨_, fromUrl_set hblank hhost, rfl⟩

/-! ### A host with an `@` -/

/-- Host and port are what stands before the path, but for a colon. -/
theorem count_place (text : List Char) :
    (place text).host.count '@' + (place text).port.count '@' =
      (text.takeWhile fun c => c ≠ '/').count '@' := by
  generalize hauthority : (text.takeWhile fun c => c ≠ '/') = authority
  show (List.takeWhile _ (text.takeWhile _)).count '@' +
    ((List.dropWhile _ (text.takeWhile _)).drop 1).count '@' = _
  rw [hauthority]
  have hsplit := congrArg (List.count '@')
    (List.takeWhile_append_dropWhile (p := fun c : Char => decide (c ≠ ':')) (l := authority))
  rw [List.count_append] at hsplit
  rw [← hsplit, Nat.add_left_cancel_iff]
  cases hrest : authority.dropWhile fun c => decide (c ≠ ':') with
  | nil => rfl
  | cons c rest =>
      have hcolon : c = ':' := by
        have hhead := List.head?_dropWhile_not (fun c : Char => decide (c ≠ ':')) authority
        rw [hrest] at hhead
        simpa using hhead
      simp [hcolon]

/-- A part of such a host is taken for credentials. -/
theorem place_ne_redisTarget (hhost : '@' ∈ s.redisNetloc) {c : Connection}
    (hread : fromUrl (s.withSecret secret).redisUrl = some c) : c.place ≠ s.redisTarget := by
  obtain ⟨before, after, hsplit, hafter⟩ := exists_last hhost
  have hnetloc : userinfo secret ++ s.redisNetloc =
      (userinfo secret ++ before) ++ '@' :: after := by
    rw [hsplit, List.append_assoc]
  have hplace : c.place = place (after ++ s.redisPath) := by
    rw [fromUrl_cut, hnetloc] at hread
    rw [← Option.some.inj hread]
    exact congrArg (fun text => place (text ++ s.redisPath))
      (rtakeWhile_cut (ne_at hafter) (by decide))
  have hbefore : ∀ d ∈ before ++ ['@'], decide (d ≠ '/') = true := by
    intro d hd
    have hmem : d ∈ s.redisNetloc := by
      rw [hsplit]
      rcases List.mem_append.mp hd with hd | hd
      · exact List.mem_append_left _ hd
      · rw [List.mem_singleton.mp hd]
        simp
    have hin := List.mem_takeWhile_imp hmem
    simp only [inNetloc, Bool.and_eq_true] at hin
    exact hin.1.1
  intro htarget
  have hcount := count_place s.redisPlace.toList
  have hcount' := count_place (after ++ s.redisPath)
  have hplaces : place (after ++ s.redisPath) = place s.redisPlace.toList :=
    hplace.symm.trans htarget
  have htext : s.redisPlace.toList = before ++ ['@'] ++ (after ++ s.redisPath) := by
    rw [← redisNetloc_append, hsplit]
    simp
  rw [hplaces] at hcount'
  rw [htext, List.takeWhile_append_of_pos hbefore, List.count_append, List.count_append,
    ← htext] at hcount
  simp only [List.count_singleton_self] at hcount
  omega

end Redis

/-- The port has no `@` in it, so it is the host that has. -/
theorem at_mem_redisNetloc (s : Settings) :
    '@' ∈ s.redisNetloc ↔ '@' ∈ s.redisHost.toList.takeWhile inNetloc := by
  have hplace : s.redisPlace.toList = s.redisHost.toList ++
      (':' :: (toString s.redisPort).toList ++ '/' :: (toString s.redisDb).toList) := by
    have hcolon : ":".toList = [':'] := rfl
    have hslash : "/".toList = ['/'] := rfl
    simp only [Settings.redisPlace, String.toList_append, hcolon, hslash, List.append_assoc,
      List.cons_append, List.nil_append]
  have hport : ∀ c ∈ ':' :: (toString s.redisPort).toList, inNetloc c = true ∧ c ≠ '@' := by
    intro c hc
    rcases List.mem_cons.mp hc with rfl | hc
    · decide
    · have hne : ∀ d ∈ "/?#@".toList, c ≠ d := by
        intro d hd
        have hall : ∀ d ∈ "/?#@".toList, d.isDigit = false ∧ d ≠ '-' := by simp
        rintro rfl
        exact Text.notMem_int (hall c hd).1 (hall c hd).2 _ hc
      refine ⟨?_, hne '@' (by decide)⟩
      simp [inNetloc, hne '/' (by decide), hne '?' (by decide), hne '#' (by decide)]
  rw [Settings.redisNetloc, hplace, List.takeWhile_append]
  split
  next hall =>
    rw [takeWhile_cut (fun c hc => (hport c hc).1) (by decide), List.mem_append,
      (List.takeWhile_prefix _).eq_of_length hall]
    exact or_iff_left fun hmem => (hport _ hmem).2 rfl
  next => rfl

/-! ## What gets through -/

/-- Spaces are what the URLs do not carry, and of a host with an `@` in it a part is read
as part of the password.  A password of Redis that is empty or blank is none, and none
arrives. -/
theorem credentials_carried_iff (s : Settings) (secret : String) :
    (s.MysqlCarried ↔ ' ' ∉ s.mysqlUser.toList ∧ ' ' ∉ s.mysqlPassword.toList) ∧
      (s.RedisCarried secret ↔ Text.strip secret ≠ "" ∧
        ' ' ∉ secret.toList ∧ '@' ∉ s.redisHost.toList.takeWhile inNetloc) ∧
      (Text.strip secret = "" → '@' ∉ s.redisHost.toList.takeWhile inNetloc →
        s.RedisArrives secret none) := by
  refine ⟨?_, ?_, fun hblank hhost => ?_⟩
  · rw [Settings.MysqlCarried, makeUrl_databaseUrl, ← plussed_eq_iff, ← plussed_eq_iff]
    constructor
    · rintro ⟨hread, _⟩
      rw [Option.some.injEq, Connection.mk.injEq] at hread
      exact ⟨Option.some.inj hread.1, Option.some.inj hread.2.1⟩
    · rintro ⟨huser, hpassword⟩
      exact ⟨by rw [huser, hpassword], fun user password => ⟨_, makeUrl_databaseUrl _, rfl⟩⟩
  · rw [Settings.RedisCarried, Settings.RedisArrives, ← at_mem_redisNetloc, ← plussed_eq_iff]
    constructor
    · rintro ⟨hread, _⟩
      have hhost : '@' ∉ s.redisNetloc := fun hmem => place_ne_redisTarget hmem hread rfl
      have hset : Text.strip secret ≠ "" := by
        intro hblank
        rw [fromUrl_blank hblank hhost, Option.some.injEq, Connection.mk.injEq] at hread
        cases hread.2.1
      rw [fromUrl_set hset hhost, Option.some.injEq, Connection.mk.injEq] at hread
      exact ⟨hset, Option.some.inj hread.2.1, hhost⟩
    · rintro ⟨hset, hsecret, hhost⟩
      exact ⟨by rw [fromUrl_set hset hhost, hsecret], redisTarget_of_plain hhost⟩
  · rw [← at_mem_redisNetloc] at hhost
    exact ⟨fromUrl_blank hblank hhost, redisTarget_of_plain hhost⟩

def spacedSettings : Settings where
  mysqlHost := "localhost"
  mysqlPort := 3306
  mysqlUser := "app"
  mysqlPassword := "pass word"
  mysqlDb := "community"
  redisHost := "localhost"
  redisPort := 6379
  redisPassword := some "pass word"
  redisDb := 0
  redisPassword_set := by decide

/-- With such a password one logs in as somebody who knows `pass+word`. -/
theorem spaces_not_carried :
    ¬ ∀ (s : Settings) (secret : String), s.MysqlCarried ∧ s.RedisCarried secret := by
  intro h
  obtain ⟨hread, _⟩ := (h spacedSettings "pass word").1
  rw [makeUrl_databaseUrl, Option.some.injEq, Connection.mk.injEq] at hread
  exact plussed_eq_iff.mp (Option.some.inj hread.2.1) (by decide)

end GreenCommunity.Config
