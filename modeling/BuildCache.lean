import BuildCache.Command
import BuildCache.Field.Sequence
import BuildCache.Main
import BuildCache.Proofs.Backing
import BuildCache.Proofs.Changing
import BuildCache.Proofs.Checking
import BuildCache.Proofs.Compaction
import BuildCache.Proofs.Consistency
import BuildCache.Proofs.Density
import BuildCache.Proofs.Dictionary
import BuildCache.Proofs.Dropping
import BuildCache.Proofs.Durability
import BuildCache.Proofs.Encodable
import BuildCache.Proofs.Entries
import BuildCache.Proofs.Exchanges
import BuildCache.Proofs.Extents
import BuildCache.Proofs.FileTrees
import BuildCache.Proofs.Filing
import BuildCache.Proofs.Framing
import BuildCache.Proofs.Gates
import BuildCache.Proofs.Guarding
import BuildCache.Proofs.Homes
import BuildCache.Proofs.Identities
import BuildCache.Proofs.Indexing
import BuildCache.Proofs.Integer
import BuildCache.Proofs.Interning
import BuildCache.Proofs.Interruptions
import BuildCache.Proofs.Keeping
import BuildCache.Proofs.Lingering
import BuildCache.Proofs.Loading
import BuildCache.Proofs.Logs
import BuildCache.Proofs.Memories
import BuildCache.Proofs.Mentions
import BuildCache.Proofs.Metered
import BuildCache.Proofs.Mirrors
import BuildCache.Proofs.Moments
import BuildCache.Proofs.Names
import BuildCache.Proofs.NormalForms
import BuildCache.Proofs.Openings
import BuildCache.Proofs.Outgrowing
import BuildCache.Proofs.Paths
import BuildCache.Proofs.Places
import BuildCache.Proofs.Putting
import BuildCache.Proofs.Quarantine
import BuildCache.Proofs.Readers
import BuildCache.Proofs.Recovery
import BuildCache.Proofs.Regularity
import BuildCache.Proofs.Rehearsals
import BuildCache.Proofs.Removing
import BuildCache.Proofs.Reopening
import BuildCache.Proofs.Replays
import BuildCache.Proofs.Requests
import BuildCache.Proofs.Rereading
import BuildCache.Proofs.Resets
import BuildCache.Proofs.Resolving
import BuildCache.Proofs.Resting
import BuildCache.Proofs.Retaining
import BuildCache.Proofs.Runs
import BuildCache.Proofs.Sequences
import BuildCache.Proofs.Serving
import BuildCache.Proofs.Sessions
import BuildCache.Proofs.Shelves
import BuildCache.Proofs.Situations
import BuildCache.Proofs.StoredFiles
import BuildCache.Proofs.Tables
import BuildCache.Proofs.Tearing
import BuildCache.Proofs.Trees
import BuildCache.Proofs.Utf8
import BuildCache.Proofs.Verdicts
