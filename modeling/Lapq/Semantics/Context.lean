import Lapq.Semantics.Connection

/-!
The set-up of a TLS context from the options (`util.h`, `util.cpp`). The
environment, the file system and the TLS library are parameters.
-/

namespace Lapq

inductive SSLMode where
  | require
  | verifyCa
  | verifyFull
deriving DecidableEq, Repr

/-- `Error`, as its code and the text it was made with. -/
structure Error where
  code : ErrorCode
  text : Str
deriving DecidableEq, Repr

/-- `Error::operator bool`. -/
def Error.isError (e : Error) : Bool := e.code.isError

namespace Opt

def sslMode : Str := ascii "SSLMODE"

def sslCert : Str := ascii "sslcert"

def sslKey : Str := ascii "SSLKEY"

def sslRootCert : Str := ascii "SSLRootcert"

def sslCrl : Str := ascii "SSLCRL"

end Opt

/-- What a path leads to. The error is that of a path that cannot be followed. -/
inductive FileStatus where
  | regular
  | other
  | missing (ec : IOError)
deriving DecidableEq

/-- The environment variable `HOME`, if it is set, and the file system. -/
structure Platform where
  home : Option Str
  status : Str → FileStatus

/-- The two files that are given to `load_verify_file`. -/
inductive VerifyFile where
  | rootCert
  | crl
deriving DecidableEq, Repr

/-- What an `asio::ssl::context` answers to the calls on it. It is given at most
one file of each kind, so that an answer for each kind and name leaves room for a
context that remembers the files before. The default paths are set or it throws. -/
structure SslContext where
  loadVerifyFile : VerifyFile → Str → ErrorCode
  useCertificateChainFile : Str → ErrorCode
  usePrivateKeyFile : Str → ErrorCode
  setDefaultVerifyPaths : Except Abort Unit

namespace Util

def certFile : Str := ascii "/.postgresql/postgresql.crt"

def keyFile : Str := ascii "/.postgresql/postgresql.key"

def rootCertFile : Str := ascii "/.postgresql/root.crt"

def crlFile : Str := ascii "/.postgresql/root.crl"

def getSSLMode (option : DBOption) : SSLMode :=
  match option.find Opt.sslMode with
  | some mode =>
      if mode = ascii "verify_ca" then .verifyCa
      else if mode = ascii "verify_full" then .verifyFull
      else .require
  | none => .require

def getOption (option : DBOption) (key : Str) : Option Str := option.find key

def getDefaultFileName (home : Option Str) (name : Str) : Str :=
  match home with
  | some dir => if dir.isEmpty then name else dir ++ name
  | none => name

/-- `std::filesystem::is_regular_file`, with the code that it leaves in `ec`
whatever was there. -/
def isRegularFile (sys : Platform) (fname : Str) : Bool × ErrorCode :=
  match sys.status fname with
  | .regular => (true, .success)
  | .other => (false, .success)
  | .missing ec => (false, ec)

/-- How the set-up ends before its last line. -/
inductive Leave where
  | returned (e : Error)
  | thrown (e : Abort)

/-- One of the files that a context is set up with: its option, its name in the
home directory, the call that loads it, and what is done if it has no option and
is not there. -/
structure FileRole where
  key : Str
  fileName : Str
  load : Str → ErrorCode
  otherwise : Except Abort Unit

def FileRole.loadFile (role : FileRole) (fname : Str) : Except Leave ErrorCode :=
  let ec := role.load fname
  if ec.isError then .error (.returned ⟨ec, fname⟩) else .ok ec

/-- The block of `setContext` for one file, which leaves its code in `ec`. -/
def FileRole.use (sys : Platform) (option : DBOption) (role : FileRole) :
    Except Leave ErrorCode :=
  match getOption option role.key with
  | some fname =>
      let (regular, ec) := isRegularFile sys fname
      if !regular then .error (.returned ⟨ec, fname⟩) else role.loadFile fname
  | none =>
      let fname := getDefaultFileName sys.home role.fileName
      let (regular, ec) := isRegularFile sys fname
      if regular then role.loadFile fname
      else match role.otherwise with
        | .ok _ => .ok ec
        | .error e => .error (.thrown e)

/-- Without a root certificate the context falls back on the system's own. -/
def rootCert (context : SslContext) : FileRole :=
  ⟨Opt.sslRootCert, rootCertFile, context.loadVerifyFile .rootCert, context.setDefaultVerifyPaths⟩

def revocationList (context : SslContext) : FileRole :=
  ⟨Opt.sslCrl, crlFile, context.loadVerifyFile .crl, .ok ()⟩

def clientCertificate (context : SslContext) : FileRole :=
  ⟨Opt.sslCert, certFile, context.useCertificateChainFile, .ok ()⟩

def clientPrivateKey (context : SslContext) : FileRole :=
  ⟨Opt.sslKey, keyFile, context.usePrivateKeyFile, .ok ()⟩

/-- The blocks of `setContext`. Each starts by overwriting `ec`, so the code that
is left is the last one's. -/
def setFiles (sys : Platform) (option : DBOption) (context : SslContext) :
    Except Leave ErrorCode := do
  let mode := getSSLMode option
  let _ ← if mode = .verifyCa ∨ mode = .verifyFull then do
      let _ ← (rootCert context).use sys option
      (revocationList context).use sys option
    else pure .success
  let _ ← (clientCertificate context).use sys option
  (clientPrivateKey context).use sys option

def setContext (sys : Platform) (option : DBOption) (context : SslContext) :
    Except Abort Error :=
  match setFiles sys option context with
  | .ok ec => .ok ⟨ec, []⟩
  | .error (.returned e) => .ok e
  | .error (.thrown e) => .error e

/-- `verifyCertificate`, which is asked about every certificate of the server's
chain with the verdict of the TLS library on it. -/
def verifyCertificate (mode : SSLMode) (preverified : Bool) : Bool :=
  if mode = .verifyCa ∨ mode = .verifyFull then preverified else true

end Util

end Lapq
