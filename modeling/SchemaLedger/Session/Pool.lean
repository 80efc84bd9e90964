import SchemaLedger.Session.Basic

set_option autoImplicit false

/-!
# Pools

A session's connections. A bounded pool lends each connection to one user at a time and makes at most
a given number of them; a database in memory lives in one connection that everybody uses. A
connection comes back without an open transaction.
-/
namespace SchemaLedger.Session

variable {σ α : Type}

/-- The failure to connect; only the name of a file is shown. -/
def unreachable (config : Config) (e : DriverError) : Error :=
  let target := match config.dialect with
    | .sqlite => some config.target
    | .postgresql => none
  .backend (.unreachable e.message config.dialect target)

/-- What SQLite is told on every new connection. -/
def settings (config : Config) : List Request :=
  match config.dialect with
  | .sqlite => .foreignKeys true :: (if config.isMemory then [] else [.journal])
  | .postgresql => []

/-- Prepares a new connection, which is closed again if it refuses. -/
def prepareConnection (c : Nat) : Session σ Unit := do
  let config := (← read).config
  tryCatch ((settings config).forM fun r => discard (send c r)) fun
    | .driver e => do
      record .close
      throw (unreachable config e)
    | e => throw e

/-- A new connection for the present pool. -/
def connect : Session σ Nat := do
  let setting ← read
  record .connect
  match ← ask setting.server.connect with
  | .error e => throw (unreachable setting.config e)
  | .ok () => do
    let w ← get
    let c := w.connections.length
    set { w with connections := w.connections ++ [Connection.mk w.pool false] }
    prepareConnection c
    pure c

/-- Takes a connection from the pool. -/
def checkout : Session σ Nat := do
  let config := (← read).config
  let w ← get
  match config.pool, w.idle with
  | .single, c :: _ => pure c
  | .single, [] => do
    let c ← connect
    modify fun w => { w with idle := [c] }
    pure c
  | .bounded _ _, c :: rest => do
    set { w with idle := rest, out := w.out + 1 }
    pure c
  | .bounded size timeout, [] =>
    if size ≤ w.out then throw (.timeout timeout)
    else do
      let c ← connect
      modify fun w => { w with out := w.out + 1 }
      pure c

/-- Ends the open transaction without keeping its changes. -/
def rollback (c : Nat) : Session σ Unit := do
  if ← isBusy c then
    let server := (← read).server
    record .rollback
    modify fun w => { w with server := server.rollback w.server }
    setBusy c false

/-- Puts a connection back. One of an earlier pool is dropped. -/
def putBack (config : Config) (c : Nat) (w : World σ) : World σ :=
  match config.pool with
  | .single => w
  | .bounded _ _ =>
    if (w.connections[c]?.map (·.pool)) = some w.pool then
      { w with idle := c :: w.idle, out := w.out - 1 }
    else w

def checkin (c : Nat) : Session σ Unit := do
  let config := (← read).config
  rollback c
  modify (putBack config c)

def withConnection (body : Nat → Session σ α) : Session σ α := do
  let c ← checkout
  ensuring (checkin c) (body c)

/-- Closes the connections that are not in use and begins a new pool. -/
def close : Session σ Unit := do
  let w ← get
  w.idle.forM fun _ => record .close
  modify fun w => { w with idle := [], out := 0, pool := w.pool + 1 }

end SchemaLedger.Session
