import Memfs.PageMap.Lemmas
import Memfs.PageMap.Flat
import Memfs.SectorDevice
import Memfs.Session.Environment
import Memfs.Session.Mounts
import Memfs.Session.Names
import Memfs.Session.Nodes
import Memfs.Proofs.Action
import Memfs.Proofs.Forest.Changes
import Memfs.Proofs.Charges
import Memfs.Proofs.Owners
import Memfs.Proofs.Settling
import Memfs.Proofs.Sound.Holders
import Memfs.Proofs.Unchanged
import Memfs.Proofs.Making
import Memfs.Proofs.Failure
import Memfs.Proofs.Pages
import Memfs.Proofs.Sound.Moves
import Memfs.Proofs.Effects
import Memfs.Proofs.Sound.Names
import Memfs.Proofs.Effects.Files
import Memfs.Proofs.Sound.Files
import Memfs.Proofs.Keeping
import Memfs.Proofs.Configuring
import Memfs.Proofs.Sound.Mounts
import Memfs.Proofs.Effects.Mounts
import Memfs.Proofs.Runs
import Memfs.Proofs.WellNamed
import Memfs.Proofs.Quiet
import Memfs.Proofs.Inert
import Memfs.Proofs.Configured
import Memfs.Proofs.Accounts
import Memfs.Proofs.Links.Due
import Memfs.Proofs.Links.Shape
import Memfs.Proofs.Links.Counters
import Memfs.Proofs.Links.Idle
import Memfs.Proofs.Links.Exact
import Memfs.Proofs.Links.Names
import Memfs.Proofs.Links.Files
import Memfs.Proofs.Links.Mounts
import Memfs.Proofs.Counts
import Memfs.Proofs.Contents
import Memfs.Proofs.Loops
import Memfs.Proofs.Flat
import Memfs.Proofs.Walks
import Memfs.Proofs.Changes
import Memfs.Proofs.Changes.Names
import Memfs.Proofs.Changes.Files
import Memfs.Proofs.Changes.Mounts
import Memfs.Proofs.Headed
import Memfs.Proofs.Symlinks
import Memfs.Proofs.Renames
import Memfs.Proofs.Creation
import Memfs.Proofs.Cuts
import Memfs.Proofs.Paths
import Memfs.Proofs.Routes
import Memfs.Proofs.Detours
import Memfs.Shelf
import Memfs.Proofs.Shelf.Events
import Memfs.Proofs.Shelf.Tracks
import Memfs.Proofs.Shelf.Files
import Memfs.Proofs.Shelf.Steps
import Memfs.Proofs.Shelf.Replies
import Memfs.Proofs.Bystanders
import Memfs.Proofs.Teardown
import Memfs.Proofs.Watched
import Memfs.Proofs.Fates
import Memfs.Proofs.Custody.Keepers
import Memfs.Proofs.Custody.Record
import Memfs.Proofs.Custody.Attempts
import Memfs.Proofs.Steady.Basic
import Memfs.Proofs.Steady.Settling
import Memfs.Proofs.Steady.Names
import Memfs.Proofs.Steady.Moves
import Memfs.Proofs.Steady.Files
import Memfs.Proofs.Steady.Mounts
import Memfs.Proofs.Removed
import Memfs.Proofs.Dissolving
import Memfs.Proofs.Dissolved
import Memfs.Proofs.Homes
import Memfs.Proofs.Homes.Inside
import Memfs.Proofs.Homes.Steps
import Memfs.Proofs.Homes.Operations
import Memfs.Proofs.Homes.Runs
import Memfs.Proofs.Isolation
import Memfs.Proofs.Growth
import Memfs.Proofs.Listing
import Memfs.Proofs.Options.Numerals
import Memfs.Proofs.Options.Grammar
import Memfs.Proofs.Options.Mounting
import Memfs.Proofs.Options.Reports
import Memfs.Proofs.Housekeeping
import Memfs.Proofs.Aliases
import Memfs.Proofs.Turns
import Memfs.Proofs.Turns.Calls
import Memfs.Proofs.Revivals
import Memfs.Proofs.Options.Values
import Memfs.Proofs.Groups
import Memfs.Proofs.Stamps
import Memfs.Proofs.Stamps.Operations
import Memfs.Proofs.Stamps.Runs
import Memfs.Proofs.Devices.Books
import Memfs.Proofs.Devices.Attaching
import Memfs.Proofs.Devices.Trees
import Memfs.Proofs.Devices.Mounts
import Memfs.Proofs.Devices.Deeds
import Memfs.Proofs.Devices.Lives
import Memfs.Proofs.Devices.Ends
import Memfs.Proofs.Devices.Runs
import Memfs.Proofs.Sectors
import Memfs.Proofs.Numbers
import Memfs.Proofs.Numbers.Runs
import Memfs.Proofs.Tenants
