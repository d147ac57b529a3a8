import Seedstone.Service.FanOut
import Seedstone.Service.Options

/-!
# Where a command is answered

`dispatch.rs`, `containers.rs` and `hello.rs`: what a request frame makes the
connection do, decided from the frame and from what the node's cells hold at
that moment.  A handler takes the bulk strings behind the command's name and
answers an action, or the text of an error.  What only feeds the counters of
`INFO` and the log lines (names, labels, timings) is left out.
-/

namespace Seedstone.Service

inductive Unbatched where
  | fanOut (cmds : List Command) (fold : Fold)
  | every (cmd : Command) (gather : Gather)
  | keys (pattern : Bytes)
  | scan (cursor : Cursor) (pattern : Option Bytes) (count : Nat)
  | info (wanted : List Bytes)

inductive Action where
  | dispatch (cmd : Command)
  | unbatched (request : Unbatched)
  | reply (frame : Frame)
  /-- `ok` marks the connection authenticated. -/
  | authenticate (outcome : Except Frame Frame)
  | hello (frame : Frame)
  | refuse (frame : Frame)
  | replyThenClose (frame : Frame)
  | shutdown

/-- What an action becomes on a connection that has not authenticated yet. -/
def gated (action : Action) (authenticated : Bool) : Action :=
  if authenticated then
    action
  else
    match action with
    | .authenticate outcome => .authenticate outcome
    | .hello _ => .reply (safeError noauthHello)
    | .replyThenClose frame => .replyThenClose frame
    | .refuse frame => .refuse frame
    | .dispatch _ | .unbatched _ | .reply _ | .shutdown => .reply (safeError noauth)

def Unbatched.answer : Unbatched → Edge Frame
  | .fanOut cmds fold => Service.fanOut cmds fold
  | .every cmd gather => broadcast cmd gather
  | .keys pattern => Service.keys pattern keysReplyBytes
  | .scan cursor pattern count => Service.scan cursor pattern count
  | .info wanted => do
      let document ← ask (.info wanted)
      return .bulk document

/-- The frame an authentication is answered with, and whether the peer is known then. -/
def settleAuth (outcome : Except Frame Frame) (authenticated : Bool) : Frame × Bool :=
  match outcome with
  | .ok frame => (frame, true)
  | .error frame => (frame, authenticated)

abbrev Handler : Type :=
  List Bytes → NodeInfo → Except Bytes Action

def unknownSubcommand (container : String) (sub : Bytes) : Bytes :=
  ascii "ERR unknown subcommand '" ++ quote sub ++ ascii "'. Try " ++ ascii container ++
    ascii " HELP."

/-- `COMMAND`'s subcommands; `count` is how many commands there are. -/
def command (count : Nat) (sub : Bytes) (rest : List Bytes) : Except Bytes Action :=
  if eqIgnoreAsciiCase sub (ascii "COUNT") then
    if rest.isEmpty then .ok (.reply (.integer count)) else .error (wrongArity "command|count")
  else if eqIgnoreAsciiCase sub (ascii "DOCS") then
    .ok (.reply (.array []))
  else
    .error (unknownSubcommand "COMMAND" sub)

def client (sub : Bytes) (rest : List Bytes) : Except Bytes Action :=
  let taken (name : String) (arity : Nat) : Except Bytes Action :=
    if rest.length = arity then .ok (.reply (.simple (ascii "OK"))) else .error (wrongArity name)
  if eqIgnoreAsciiCase sub (ascii "SETNAME") then
    taken "client|setname" 1
  else if eqIgnoreAsciiCase sub (ascii "SETINFO") then
    taken "client|setinfo" 2
  else
    .error (unknownSubcommand "CLIENT" sub)

/-- Redis reports an absent ceiling as `0`, and no eviction with it. -/
def reportedLimit (limit : MemoryLimit) : Nat × EvictionMode :=
  match limit.ceiling with
  | some ceiling => (ceiling, limit.mode)
  | none => (0, .noEviction)

def policyName : EvictionMode → String
  | .allKeysLru => "allkeys-lru"
  | .noEviction => "noeviction"

/-- `CONFIG_PARAMETERS`, each with its `config_value`. -/
def configParameters (node : NodeInfo) : List (Bytes × Bytes) :=
  let (ceiling, policy) := reportedLimit node.limit
  [(ascii "maxmemory", decimal ceiling),
    (ascii "maxmemory-policy", ascii (policyName policy)),
    (ascii "maxclients", decimal node.maxClients),
    (ascii "databases", ascii "1"),
    (ascii "requirepass", []),
    (ascii "slowlog-log-slower-than", ascii "-1"),
    (ascii "slowlog-max-len", ascii "128"),
    (ascii "latency-monitor-threshold", ascii "0"),
    (ascii "bind", node.bind),
    (ascii "port", decimal node.tcpPort)]

def config (sub : Bytes) (globs : List Bytes) (node : NodeInfo) : Except Bytes Action :=
  if !eqIgnoreAsciiCase sub (ascii "GET") then
    .error (unknownSubcommand "CONFIG" sub)
  else if globs.isEmpty then
    .error (wrongArity "config|get")
  else
    let folded := globs.map (·.map asciiLower)
    let selected := (configParameters node).filter fun (name, _) =>
      folded.any fun pattern => Glob.isMatch pattern name
    .ok (.reply (.array (selected.flatMap fun (name, value) => [.bulk name, .bulk value])))

def slowlog (sub : Bytes) (rest : List Bytes) : Except Bytes Action :=
  if eqIgnoreAsciiCase sub (ascii "GET") then
    match rest with
    | [] => .ok (.reply (.array []))
    | [count] => do
        let _ ← parseArgument count
        .ok (.reply (.array []))
    | _ => .error (wrongArity "slowlog|get")
  else if eqIgnoreAsciiCase sub (ascii "LEN") then
    if rest.isEmpty then .ok (.reply (.integer 0)) else .error (wrongArity "slowlog|len")
  else if eqIgnoreAsciiCase sub (ascii "RESET") then
    if rest.isEmpty then
      .ok (.reply (.simple (ascii "OK")))
    else
      .error (wrongArity "slowlog|reset")
  else
    .error (unknownSubcommand "SLOWLOG" sub)

def latency (sub : Bytes) (rest : List Bytes) : Except Bytes Action :=
  if eqIgnoreAsciiCase sub (ascii "LATEST") then
    if rest.isEmpty then .ok (.reply (.array [])) else .error (wrongArity "latency|latest")
  else if eqIgnoreAsciiCase sub (ascii "HISTORY") then
    if rest.length = 1 then .ok (.reply (.array [])) else .error (wrongArity "latency|history")
  else if eqIgnoreAsciiCase sub (ascii "RESET") then
    .ok (.reply (.integer 0))
  else if eqIgnoreAsciiCase sub (ascii "HISTOGRAM") then
    .ok (.reply (.array []))
  else
    .error (unknownSubcommand "LATENCY" sub)

/-- `accepted` is what a pair that is right is answered with. -/
def authenticate (user : Option Bytes) (pass : Bytes) (accepted : Frame) (node : NodeInfo) :
    Except Bytes Action :=
  match node.passwords with
  | none => .error authNotConfigured
  | some passwords =>
    let userOk := user.all fun user => eqIgnoreAsciiCase user (ascii "default")
    let passOk := passwords.isMatch pass
    if userOk && passOk then
      .ok (.authenticate (.ok accepted))
    else
      .ok (.authenticate (.error (.error wrongpass)))

def auth : Handler
  | [pass], node => authenticate none pass (.simple (ascii "OK")) node
  | [user, pass], node => authenticate (some user) pass (.simple (ascii "OK")) node
  | _, _ => .error (wrongArity "auth")

def noproto : Bytes :=
  ascii "NOPROTO unsupported protocol version"

structure Credentials where
  user : Bytes
  pass : Bytes

def helloAuth : List Bytes → Except Bytes (Option Credentials)
  | [] => .ok none
  | option :: rest =>
    match eqIgnoreAsciiCase option (ascii "auth"), rest with
    | true, [user, pass] => .ok (some ⟨user, pass⟩)
    | _, _ => .error (ascii "ERR Syntax error in HELLO option '" ++ quote option ++ ascii "'")

def helloFrame (node : NodeInfo) : Frame :=
  .array [.bulk (ascii "server"), .bulk serverName, .bulk (ascii "version"), .bulk node.version,
    .bulk (ascii "proto"), .integer 2, .bulk (ascii "mode"), .bulk serverMode,
    .bulk (ascii "role"), .bulk (ascii "master")]

/-- The credentials a `HELLO` carries, or the refusal of the request itself. -/
def helloCredentials : List Bytes → Except Bytes (Option Credentials)
  | [] => .ok none
  | version :: rest =>
    match parseI64 version with
    | none => .error (ascii "ERR Protocol version is not an integer or out of range")
    | some version => if version ≠ 2 then .error noproto else helloAuth rest

def hello : Handler := fun args node =>
  match helloCredentials args with
  | .error text => .ok (.refuse (safeError text))
  | .ok none => .ok (.hello (helloFrame node))
  | .ok (some credentials) =>
    authenticate (some credentials.user) credentials.pass (helloFrame node) node

/-- A command on one key and nothing else. -/
def oneKey (name : String) (build : Bytes → Command) : Handler
  | [key], _ => .ok (.dispatch (build key))
  | _, _ => .error (wrongArity name)

def perKey (name : String) (fold : Fold) (build : Bytes → Command) : Handler
  | [], _ => .error (wrongArity name)
  | [key], _ =>
    if fold.isIdentityOnOne then
      .ok (.dispatch (build key))
    else
      .ok (.unbatched (.fanOut [build key] fold))
  | keys, _ => .ok (.unbatched (.fanOut (keys.map build) fold))

/-- A command on a key and one argument. -/
def keyAnd {α : Type} (name : String) (read : Bytes → NodeInfo → Except Bytes α)
    (build : Bytes → α → Command) : Handler
  | [key, argument], node => do
      let value ← read argument node
      return .dispatch (build key value)
  | _, _ => .error (wrongArity name)

/-- A value under a key for a span: `SETEX` and `PSETEX`. -/
def setFor (name : String) (ceiling : Int) (perUnitMillis : Nat)
    (build : Bytes → Nat → Bytes → Command) : Handler
  | [key, span, value], node => do
      let span ← setExpireValue span ceiling name node (some perUnitMillis)
      return .dispatch (build key span value)
  | _, _ => .error (wrongArity name)

def set : Handler
  | key :: value :: options, node => do
      let options ← setOptions options node
      return .dispatch (.set key value options.expiry options.cond options.keepTtl options.get)
  | _, _ => .error (wrongArity "set")

/-- A command with no argument at all. -/
def bare (name : String) (action : NodeInfo → Action) : Handler
  | [], node => .ok (action node)
  | _, _ => .error (wrongArity name)

def scanOptions (rest : List Bytes) : Except Bytes (Option Bytes × Nat) :=
  scanOptionsLoop rest none scanDefaultCount

def scanHandler : Handler
  | cursor :: options, _ =>
    match parseU64 cursor with
    | none => .error invalidCursor
    | some cursor => do
        let (pattern, count) ← scanOptions options
        return .unbatched (.scan (BitVec.ofNat 64 cursor) pattern count)
  | [], _ => .error (wrongArity "scan")

def persistenceOff : Bytes :=
  ascii "ERR persistence is off: start the server with --data-dir"

def snapshot (node : NodeInfo) (wait : Bool) : Action :=
  if node.persistence.isNone then
    .reply (safeError persistenceOff)
  else
    .unbatched (.every (.snapshot wait) (if wait then .allOk else .started))

def bgsave : Handler
  | [], node => .ok (snapshot node false)
  | [option], node =>
    if eqIgnoreAsciiCase option (ascii "SCHEDULE") then
      .ok (snapshot node false)
    else
      .error syntaxError
  | _, _ => .error syntaxError

def shutdown : Handler
  | [], _ => .ok .shutdown
  | [modifier], _ =>
    if eqIgnoreAsciiCase modifier (ascii "NOSAVE") ||
        eqIgnoreAsciiCase modifier (ascii "SAVE") then
      .ok .shutdown
    else
      .error syntaxError
  | _, _ => .error syntaxError

def lastsave (node : NodeInfo) : Action :=
  match node.persistence with
  | none => .reply (safeError persistenceOff)
  | some lastSaveUnix => .reply (.integer (min (lastSaveUnix.getD 0 : Int) i64Max))

def ping : Handler
  | [], _ => .ok (.reply (.simple (ascii "PONG")))
  | [message], _ => .ok (.reply (.bulk message))
  | _, _ => .error (wrongArity "ping")

def echo : Handler
  | [message], _ => .ok (.reply (.bulk message))
  | _, _ => .error (wrongArity "echo")

/-- A command whose first argument names what it does. -/
def container (name : String)
    (handle : Bytes → List Bytes → NodeInfo → Except Bytes Action) : Handler
  | [], _ => .error (wrongArity name)
  | sub :: rest, node => handle sub rest node

/-- The entries of `COMMANDS`; `COMMAND COUNT` answers `count`. -/
def commandTable (count : Nat) : List (Bytes × Handler) :=
  [(ascii "GET", oneKey "get" .get),
    (ascii "SET", set),
    (ascii "MGET", perKey "mget" .array .get),
    (ascii "DEL", perKey "del" .sum .del),
    (ascii "EXISTS", perKey "exists" .sum .exists),
    (ascii "EXPIRE", keyAnd "expire" expireSeconds .expire),
    (ascii "TTL", oneKey "ttl" .ttl),
    (ascii "PEXPIRE", keyAnd "pexpire" expireMillis .pExpire),
    (ascii "PERSIST", oneKey "persist" .persist),
    (ascii "PTTL", oneKey "pttl" .pTtl),
    (ascii "EXPIREAT",
      keyAnd "expireat" (fun at_ => absoluteDeadlineSpan at_ 1000 "expireat") .expireAt),
    (ascii "PEXPIREAT",
      keyAnd "pexpireat" (fun at_ => absoluteDeadlineSpan at_ 1 "pexpireat") .pExpireAt),
    (ascii "INCRBY", keyAnd "incrby" (fun delta _ => parseArgument delta) .incrBy),
    (ascii "TYPE", oneKey "type" .type),
    (ascii "STRLEN", oneKey "strlen" .strLen),
    (ascii "SETEX", setFor "setex" maxExpireSeconds 1000 .setEx),
    (ascii "SETNX", keyAnd "setnx" (fun value _ => .ok value) .setNx),
    (ascii "PSETEX", setFor "psetex" maxExpireMillis 1 .pSetEx),
    (ascii "DBSIZE", bare "dbsize" fun _ => .unbatched (.every .dbSize .sum)),
    (ascii "KEYS", fun
      | [pattern], _ => .ok (.unbatched (.keys pattern))
      | _, _ => .error (wrongArity "keys")),
    (ascii "SCAN", scanHandler),
    (ascii "FLUSHDB", bare "flushdb" fun _ => .unbatched (.every .flushDb .allOk)),
    (ascii "BGSAVE", bgsave),
    (ascii "SAVE", bare "save" fun node => snapshot node true),
    (ascii "SHUTDOWN", shutdown),
    (ascii "LASTSAVE", bare "lastsave" lastsave),
    (ascii "PING", ping),
    (ascii "ECHO", echo),
    (ascii "AUTH", auth),
    (ascii "HELLO", hello),
    (ascii "INFO", fun args _ => .ok (.unbatched (.info args))),
    (ascii "COMMAND", fun
      | [], _ => .ok (.reply (.array []))
      | sub :: rest, _ => command count sub rest),
    (ascii "CLIENT", container "client" fun sub rest _ => client sub rest),
    (ascii "CONFIG", container "config" config),
    (ascii "SLOWLOG", container "slowlog" fun sub rest _ => slowlog sub rest),
    (ascii "LATENCY", container "latency" fun sub rest _ => latency sub rest),
    (ascii "QUIT", bare "quit" fun _ => .replyThenClose (.simple (ascii "OK")))]

/-- `COMMANDS`: the table is as long whatever `COMMAND COUNT` answers. -/
def commands : List (Bytes × Handler) :=
  commandTable (commandTable 0).length

def handlerFor (name : Bytes) : Option Handler :=
  (commands.find? fun (known, _) => eqIgnoreAsciiCase known name).map Prod.snd

def isBulk : Frame → Bool
  | .bulk _ => true
  | _ => false

def notACommand : Bytes :=
  ascii "ERR Protocol error: expected an array of bulk strings"

def actionFor (frame : Frame) (node : NodeInfo) : Except Bytes Action :=
  match frame with
  | .array parts =>
    if parts.any (fun part => !isBulk part) then
      .error notACommand
    else
      match parts.map bulk with
      | [] => .error (ascii "ERR Protocol error: empty command")
      | name :: args =>
        match handlerFor name with
        | none => .error (ascii "ERR unknown command '" ++ quote name ++ ascii "'")
        | some handler => handler args node
  | _ => .error notACommand

def frameToAction (frame : Frame) (node : NodeInfo) : Action :=
  match actionFor frame node with
  | .ok action => action
  | .error message => .reply (safeError message)

end Seedstone.Service
