import Lapq.Semantics.Context

/-!
Options from the environment (`util.h`, `util.cpp`). The environment variables and
the password database are parameters.
-/

namespace Lapq

namespace Opt

def user : Str := ascii "user"

def database : Str := ascii "database"

def applicationName : Str := ascii "application_name"

def dateStyle : Str := ascii "DATEStyle"

def timeZone : Str := ascii "TIMEZOne"

def geqo : Str := ascii "GEQO"

def clientEncoding : Str := ascii "client_encoding"

def sslCompression : Str := ascii "Sslcompression"

def sslCertDir : Str := ascii "SSL_cert_dir"

def requirePeer : Str := ascii "REQuirepeer"

end Opt

/-- What `std::getenv` answers, and the name in the effective user's entry of the
password database, if there is one. -/
structure Host where
  getenv : Str → Option Str
  passwd : Option Str

namespace Util

def uname (host : Host) : Str :=
  match host.passwd with
  | some name => name
  | none => []

/-- The map `env` of `getEnv`, as it is initialised. -/
def envTable : List (Str × Str) :=
  [(ascii "PGUSER", Opt.user), (ascii "PGDATABASE", Opt.database),
    (ascii "PGAPPNAME", Opt.applicationName), (ascii "PGDATESTYLE", Opt.dateStyle),
    (ascii "PGTZ", Opt.timeZone), (ascii "PGGEQO", Opt.geqo),
    (ascii "PGCLIENTENCODING", Opt.clientEncoding), (ascii "PGSSLMODE", Opt.sslMode),
    (ascii "PGSSLCOMPRESSION", Opt.sslCompression), (ascii "PGSSLCERT", Opt.sslCert),
    (ascii "PGSSLKEY", Opt.sslKey), (ascii "PGSSLROOTCERT", Opt.sslRootCert),
    (ascii "PGSSLCRL", Opt.sslCrl), (ascii "SSL_CERT_DIR", Opt.sslCertDir),
    (ascii "PGREQUIREPEER", Opt.requirePeer)]

def env : OrderedMap Str Str := envTable.foldl (fun m e => m.emplace e.1 e.2) .empty

/-- The body of the loop of `getEnv`. -/
def readVariable (host : Host) (option : DBOption) (ev : Str × Str) : DBOption :=
  match host.getenv ev.1 with
  | none => option
  | some c =>
      if c.isEmpty then option
      else match option.find ev.2 with
        | some _ => option
        | none => option.emplace ev.2 c

/-- `getEnv`, which fills in the options that are not given. -/
def getEnv (host : Host) (option : DBOption) : DBOption :=
  let option := env.entries.foldl (readVariable host) option
  match option.find Opt.user with
  | some _ => option
  | none =>
      let name := uname host
      if 0 < name.length then option.emplace (ascii "user") name else option

end Util

end Lapq
